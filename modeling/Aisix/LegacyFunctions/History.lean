import Aisix.LegacyFunctions.Answer

/-!
# Aisix.LegacyFunctions.History

What becomes of the request: no legacy field is left, each function is one tool more, and each
turn's call and result are where they were.
-/

namespace Aisix
namespace LegacyFunctions

open Json ChatMerge

section Members

variable {key key' : String} {fields : List (String × Value)}

/-- A legacy field as it counts. -/
def setOnly (v : Option Value) : Option Value := if isNull v then none else v

theorem lookup_dropNull (key : String) (fields : List (String × Value)) :
    (dropNull key fields).lookup key = setOnly (fields.lookup key) := by
  unfold dropNull setOnly
  split
  · exact lookup_remove_self ..
  · rfl

theorem lookup_dropNull_of_ne (h : key' ≠ key) (fields : List (String × Value)) :
    (dropNull key fields).lookup key' = fields.lookup key' := by
  unfold dropNull
  split
  · exact lookup_remove_of_ne h fields
  · rfl

/-- The items of a member that is an array. -/
def itemsOf (key : String) (fields : List (String × Value)) : List Value :=
  match fields.lookup key with
  | some (.array items) => items
  | _ => []

theorem itemsOf_congr {fields' : List (String × Value)}
    (h : fields.lookup key = fields'.lookup key) : itemsOf key fields = itemsOf key fields' := by
  unfold itemsOf
  rw [h]

theorem itemsOf_setMember (items : List Value) :
    itemsOf key (setMember key (.array items) fields) = items := by
  rw [itemsOf, lookup_setMember]

end Members

section Fields

variable {extra out : List (String × Value)}

theorem declareTools_ok (h : declareTools extra = .ok out) :
    out.lookup "functions" = none ∧
      itemsOf "tools" out = itemsOf "tools" extra ++ (itemsOf "functions" extra).map toolOf ∧
      ∀ key, key ≠ "functions" → key ≠ "tools" → out.lookup key = extra.lookup key := by
  unfold declareTools at h
  cases hfunctions : extra.lookup "functions" with
  | none =>
    rw [hfunctions] at h
    obtain rfl := Except.ok.inj h
    refine ⟨hfunctions, ?_, fun _ _ _ => rfl⟩
    have hnone : itemsOf "functions" extra = [] := by rw [itemsOf, hfunctions]
    rw [hnone, List.map_nil, List.append_nil]
  | some v =>
    rw [hfunctions] at h
    cases v with
    | array functions =>
      have hsome : itemsOf "functions" extra = functions := by rw [itemsOf, hfunctions]
      have htools : (remove "functions" extra).lookup "tools" = extra.lookup "tools" :=
        lookup_remove_of_ne (by decide) extra
      obtain ⟨items, hitems, rfl⟩ : ∃ items, items = itemsOf "tools" extra ++ functions.map toolOf ∧
          setMember "tools" (.array items) (remove "functions" extra) = out := by
        dsimp only at h
        unfold itemsOf
        rw [htools] at h
        cases htool : extra.lookup "tools" with
        | none =>
          rw [htool] at h
          exact ⟨_, rfl, Except.ok.inj h⟩
        | some t =>
          rw [htool] at h
          cases t <;> exact ⟨_, rfl, Except.ok.inj h⟩
      refine ⟨?_, ?_, fun key hfun htool => ?_⟩
      · rw [lookup_setMember_of_ne (by decide), lookup_remove_self]
      · rw [itemsOf_setMember, hitems, hsome]
      · rw [lookup_setMember_of_ne htool, lookup_remove_of_ne hfun]
    | _ => cases h

theorem chooseTool_ok (h : chooseTool extra = .ok out) :
    out.lookup "function_call" = none ∧
      ∀ key, key ≠ "function_call" → key ≠ "tool_choice" → out.lookup key = extra.lookup key := by
  unfold chooseTool at h
  cases hcall : extra.lookup "function_call" with
  | none =>
    rw [hcall] at h
    obtain rfl := Except.ok.inj h
    exact ⟨hcall, fun _ _ _ => rfl⟩
  | some functionCall =>
    rw [hcall] at h
    dsimp only at h
    cases hchoice : choiceOf functionCall with
    | none =>
      rw [hchoice] at h
      cases h
    | some choice =>
      rw [hchoice] at h
      obtain rfl := Except.ok.inj h
      split
      · exact ⟨lookup_remove_self .., fun key hkey _ => lookup_remove_of_ne hkey extra⟩
      · refine ⟨?_, fun key hkey hchoice => ?_⟩
        · rw [lookup_setMember_of_ne (by decide), lookup_remove_self]
        · rw [lookup_setMember_of_ne hchoice, lookup_remove_of_ne hkey]

end Fields

/-! ### The turns -/

/-- The call of a turn, where it has one. -/
def legacyCall (m : ChatMessage) : Option Value := setOnly (m.extra.lookup "function_call")

/-- The id of the last call after some turns, the first of them at a position. -/
def lastAfter (index : Nat) (last : Option String) : List ChatMessage → Option String
  | [] => last
  | m :: ms =>
    lastAfter (index + 1) (if (legacyCall m).isSome then some (callFunctionId index) else last) ms

/-- A turn's own call as a tool call. -/
def generated (index : Nat) (m : ChatMessage) : List Value :=
  ((legacyCall m).map fun call => toolCallOf index ((strField call "name").getD "") call).toList

/-- What becomes of the turn at a position, after the last call. -/
structure Turned (index : Nat) (last : Option String) (m o : ChatMessage) : Prop where
  modern : o.role ≠ .function ∧ o.extra.lookup "function_call" = none
  named : ∀ call, legacyCall m = some call → (strField call "name").isSome
  calls : itemsOf "tool_calls" o.extra = itemsOf "tool_calls" m.extra ++ generated index m
  text : o.content = m.content ∧ o.contentBlocks = m.contentBlocks ∧ o.name = m.name
  other : m.role ≠ .function → o.role = m.role ∧ o.toolCallId = m.toolCallId
  result : m.role = .function → o.role = .tool ∧
    o.toolCallId = m.toolCallId.or (some ((lastAfter index last [m]).getD (callFunctionId index)))

theorem itemsOf_addToolCall (extra : List (String × Value)) (toolCall : Value) :
    itemsOf "tool_calls" (addToolCall extra toolCall) = itemsOf "tool_calls" extra ++
      [toolCall] := by
  unfold addToolCall
  cases h : extra.lookup "tool_calls" with
  | none =>
    dsimp only
    rw [itemsOf_setMember, itemsOf, h]
    rfl
  | some v =>
    cases v <;> dsimp only <;> rw [itemsOf_setMember, itemsOf, h] <;> rfl

theorem lookup_addToolCall (extra : List (String × Value)) (toolCall : Value) :
    (addToolCall extra toolCall).lookup "function_call" = extra.lookup "function_call" := by
  unfold addToolCall
  split <;> exact lookup_setMember_of_ne (by decide) ..

theorem lookup_dropNullCall (m : ChatMessage) :
    (dropNullCall m).extra.lookup "function_call" = legacyCall m :=
  lookup_dropNull "function_call" m.extra

theorem itemsOf_dropNullCall (m : ChatMessage) :
    itemsOf "tool_calls" (dropNullCall m).extra = itemsOf "tool_calls" m.extra :=
  itemsOf_congr (lookup_dropNull_of_ne (by decide) m.extra)

theorem replayCall_ok {index : Nat} {last last' : Option String} {m mid : ChatMessage}
    (h : replayCall index last (dropNullCall m) = .ok (mid, last')) :
    last' = lastAfter index last [m] ∧ mid.extra.lookup "function_call" = none ∧
      (∀ call, legacyCall m = some call → (strField call "name").isSome) ∧
      itemsOf "tool_calls" mid.extra = itemsOf "tool_calls" m.extra ++ generated index m ∧
      mid = { dropNullCall m with extra := mid.extra } := by
  unfold replayCall at h
  rw [lookup_dropNullCall] at h
  cases hcall : legacyCall m with
  | none =>
    rw [hcall] at h
    obtain ⟨rfl, rfl⟩ := Prod.mk.inj (Except.ok.inj h)
    refine ⟨?_, ?_, fun call hsome => (by cases hsome), ?_, rfl⟩
    · rw [lastAfter, hcall]
      rfl
    · rw [lookup_dropNullCall, hcall]
    · rw [itemsOf_dropNullCall, generated, hcall, Option.map_none, Option.toList_none,
        List.append_nil]
  | some call =>
    rw [hcall] at h
    dsimp only at h
    cases hname : strField call "name" with
    | none =>
      rw [hname] at h
      cases h
    | some name =>
      rw [hname] at h
      obtain ⟨rfl, rfl⟩ := Prod.mk.inj (Except.ok.inj h)
      refine ⟨?_, ?_, ?_, ?_, rfl⟩
      · rw [lastAfter, hcall]
        rfl
      · rw [lookup_addToolCall, lookup_remove_self]
      · intro call' hsome
        obtain rfl := Option.some.inj hsome
        rw [hname]
        rfl
      · rw [itemsOf_addToolCall,
          itemsOf_congr (lookup_remove_of_ne (by decide) (dropNullCall m).extra),
          itemsOf_dropNullCall, generated, hcall, Option.map_some, hname]
        rfl

theorem turned_answerCall {index : Nat} {last last' : Option String} {m mid : ChatMessage}
    (h : replayCall index last (dropNullCall m) = .ok (mid, last')) :
    Turned index last m (answerCall index last' mid) := by
  obtain ⟨hlast, hcall, hnamed, hitems, hmid⟩ := replayCall_ok h
  have hrole : mid.role = m.role := by rw [hmid]; rfl
  have hid : mid.toolCallId = m.toolCallId := by rw [hmid]; rfl
  have htext : mid.content = m.content ∧ mid.contentBlocks = m.contentBlocks ∧
      mid.name = m.name := by
    rw [hmid]
    exact ⟨rfl, rfl, rfl⟩
  unfold answerCall
  by_cases hfunction : mid.role = .function
  · rw [if_pos hfunction]
    refine ⟨⟨fun heq => (by cases heq), hcall⟩, hnamed, hitems, htext,
      fun hne => absurd (hrole ▸ hfunction) hne, fun _ => ⟨rfl, ?_⟩⟩
    rw [hid, hlast]
  · rw [if_neg hfunction]
    exact ⟨⟨hfunction, hcall⟩, hnamed, hitems, htext, fun _ => ⟨hrole, hid⟩,
      fun heq => absurd (hrole.trans heq) hfunction⟩

theorem replayFrom_ok {ms outs : List ChatMessage} {index : Nat} {last : Option String}
    (h : replayFrom index last (ms.map dropNullCall) = .ok outs) : outs.length = ms.length ∧
      ∀ (i : Nat) (m : ChatMessage), ms[i]? = some m →
        ∃ o, outs[i]? = some o ∧ Turned (index + i) (lastAfter index last (ms.take i)) m o := by
  induction ms generalizing index last outs with
  | nil =>
    obtain rfl : [] = outs := Except.ok.inj h
    exact ⟨rfl, fun i m hm => (by cases hm)⟩
  | cons m ms ih =>
    rw [List.map_cons, replayFrom] at h
    cases hcall : replayCall index last (dropNullCall m) with
    | error e =>
      rw [hcall] at h
      cases h
    | ok step =>
      obtain ⟨mid, last'⟩ := step
      rw [hcall] at h
      dsimp only at h
      cases hrest : replayFrom (index + 1) last' (ms.map dropNullCall) with
      | error e =>
        rw [hrest] at h
        cases h
      | ok rest =>
        rw [hrest] at h
        obtain rfl := Except.ok.inj h
        obtain ⟨hlength, hturns⟩ := ih hrest
        refine ⟨congrArg Nat.succ hlength, fun i m' hm' => ?_⟩
        cases i with
        | zero =>
          obtain rfl := Option.some.inj hm'
          exact ⟨_, rfl, turned_answerCall hcall⟩
        | succ i =>
          obtain ⟨o, ho, hturned⟩ := hturns i m' hm'
          have hlast : last' = lastAfter index last [m] := (replayCall_ok hcall).1
          refine ⟨o, ho, ?_⟩
          have hindex : index + 1 + i = index + (i + 1) := by omega
          rw [hlast, hindex] at hturned
          exact hturned

theorem turned_same {index : Nat} {last : Option String} {m : ChatMessage}
    (hrole : m.role ≠ .function)
    (hcall : m.extra.lookup "function_call" = none) : Turned index last m m := by
  have hnone : legacyCall m = none := by rw [legacyCall, hcall]; rfl
  refine ⟨⟨hrole, hcall⟩, fun call hsome => ?_, ?_, ⟨rfl, rfl, rfl⟩, fun _ => ⟨rfl, rfl⟩,
    fun heq => absurd heq hrole⟩
  · rw [hnone] at hsome
    cases hsome
  · rw [generated, hnone, Option.map_none, Option.toList_none, List.append_nil]

theorem eq_none_of_unset {v : Option Value} (hset : isSet v = false) (hnull : isNull v = false) :
    v = none := by
  cases v with
  | none => rfl
  | some w =>
    cases w with
    | null => cases hnull
    | _ => cases hset

/-- The request as it is rewritten. -/
structure Rewritten (req out : ChatFormat) : Prop where
  fields : out.extra.lookup "functions" = none ∧ out.extra.lookup "function_call" = none
  tools :
    itemsOf "tools" out.extra = itemsOf "tools" req.extra ++
    (itemsOf "functions" req.extra).map toolOf
  length : out.messages.length = req.messages.length
  turn : ∀ (i : Nat) (m : ChatMessage), req.messages[i]? = some m →
    ∃ o, out.messages[i]? = some o ∧ Turned i (lastAfter 0 none (req.messages.take i)) m o

theorem itemsOf_dropNull (key : String) (fields : List (String × Value)) :
    itemsOf key (dropNull key fields) = itemsOf key fields := by
  unfold itemsOf
  rw [lookup_dropNull]
  cases fields.lookup key with
  | none => rfl
  | some v => cases v <;> rfl

theorem rewritten {req out : ChatFormat} {l : LegacyFunctionCalling}
    (h : legacyFunctionsAsTools req = .ok (out, l)) :
    Rewritten req out := by
  unfold legacyFunctionsAsTools at h
  by_cases huses : usesLegacy req = true
  · rw [if_neg (by rw [huses]; decide)] at h
    dsimp only at h
    cases hdeclare : declareTools (dropNull "function_call" (dropNull "functions" req.extra)) with
    | error e =>
      rw [hdeclare] at h
      cases h
    | ok declared =>
      cases hchoose : chooseTool declared with
      | error e =>
        simp only [hdeclare, Except.bind, bind, hchoose] at h
        cases h
      | ok chosen =>
        cases hreplay : replayFrom 0 none (req.messages.map dropNullCall) with
        | error e =>
          simp only [hdeclare, Except.bind, bind, hchoose, hreplay] at h
          cases h
        | ok messages =>
          simp only [hdeclare, Except.bind, bind, hchoose, hreplay] at h
          obtain ⟨rfl, -⟩ := Prod.mk.inj (Except.ok.inj h)
          obtain ⟨hgone, htools, hother⟩ := declareTools_ok hdeclare
          obtain ⟨hcall, hkept⟩ := chooseTool_ok hchoose
          obtain ⟨hlength, hturns⟩ := replayFrom_ok hreplay
          refine ⟨⟨?_, hcall⟩, ?_, hlength, fun i m hm => ?_⟩
          · rw [hkept _ (by decide) (by decide), hgone]
          · have hsame :
                itemsOf "tools" (dropNull "function_call" (dropNull "functions" req.extra)) =
                itemsOf "tools" req.extra := by
              refine itemsOf_congr ?_
              rw [lookup_dropNull_of_ne (by decide), lookup_dropNull_of_ne (by decide)]
            have hfunctions :
                itemsOf "functions" (dropNull "function_call" (dropNull "functions" req.extra)) =
                itemsOf "functions" req.extra := by
              rw [← itemsOf_dropNull "functions" req.extra]
              exact itemsOf_congr (lookup_dropNull_of_ne (by decide) _)
            rw [itemsOf_congr (hkept "tools" (by decide) (by decide)), htools, hsame, hfunctions]
          · obtain ⟨o, ho, hturned⟩ := hturns i m hm
            rw [Nat.zero_add] at hturned
            exact ⟨o, ho, hturned⟩
  · have hunused : usesLegacy req = false := by simpa using huses
    rw [hunused] at h
    obtain ⟨rfl, -⟩ := Prod.mk.inj (Except.ok.inj h)
    unfold usesLegacy at hunused
    simp only [Bool.or_eq_false_iff, List.any_eq_false, beq_iff_eq, not_or,
      Bool.or_eq_true] at hunused
    obtain ⟨⟨⟨⟨hfunctions, hcall⟩, hmessages⟩, hnullFunctions, hnullCall⟩, hnulls⟩ := hunused
    have hnone := eq_none_of_unset hfunctions hnullFunctions
    refine ⟨⟨hnone, eq_none_of_unset hcall hnullCall⟩, ?_, rfl, fun i m hm => ⟨m, hm, ?_⟩⟩
    · have hitems : itemsOf "functions" req.extra = [] := by rw [itemsOf, hnone]
      rw [hitems, List.map_nil, List.append_nil]
    · have hmem := List.mem_of_getElem? hm
      obtain ⟨hrole, hset⟩ := hmessages m hmem
      exact turned_same hrole
        (eq_none_of_unset (by simpa using hset) (by simpa using hnulls m hmem))

/-! ### Calls and their results -/

theorem callFunctionId_inj {i j : Nat} (h : callFunctionId i = callFunctionId j) : i = j := by
  have hlist := String.ofList_injective h
  exact toDigits_inj (List.append_cancel_left hlist)

theorem lastAfter_append (index : Nat) (last : Option String) (ms ms' : List ChatMessage) :
    lastAfter index last (ms ++ ms') = lastAfter (index + ms.length)
      (lastAfter index last ms) ms' := by
  induction ms generalizing index last with
  | nil => rfl
  | cons m ms ih =>
    rw [List.cons_append, lastAfter, ih, lastAfter, List.length_cons, Nat.add_assoc, Nat.add_comm 1]

theorem lastAfter_quiet {ms : List ChatMessage} (h : ∀ m ∈ ms, legacyCall m = none) (index : Nat)
    (last : Option String) : lastAfter index last ms = last := by
  induction ms generalizing index with
  | nil => rfl
  | cons m ms ih =>
    rw [lastAfter, h m List.mem_cons_self]
    exact ih (fun m' hm' => h m' (List.mem_cons_of_mem m hm')) _

/-- The turn at `j` is the result that follows the call in the turn at `i`: of its name, with
nothing called or answered between. -/
structure Follows (ms : List ChatMessage) (i j : Nat) : Prop where
  before : i < j
  call : ∃ c call, ms[i]? = some c ∧ c.role = .assistant ∧ legacyCall c = some call ∧
    ∃ m, ms[j]? = some m ∧ m.role = .function ∧ m.toolCallId = none ∧ legacyCall m = none ∧
      strField call "name" = m.name
  between : ∀ k b, i < k → k < j → ms[k]? = some b → b.role ≠ .function ∧ legacyCall b = none

theorem Follows.lastAfter {ms : List ChatMessage} {i j : Nat} (h : Follows ms i j) :
    lastAfter 0 none (ms.take j) = some (callFunctionId i) := by
  obtain ⟨c, call, hc, -, hcall, -⟩ := h.call
  have hlength : i < ms.length := (List.getElem?_eq_some_iff.1 hc).1
  have hsplit : ms.take j = ms.take i ++ c :: (ms.drop (i + 1)).take (j - i - 1) := by
    obtain ⟨k, rfl⟩ : ∃ k, j = i + (k + 1) := ⟨j - i - 1, by have := h.before; omega⟩
    have hk : i + (k + 1) - i - 1 = k := by omega
    obtain ⟨hi, hget⟩ := List.getElem?_eq_some_iff.1 hc
    rw [hk, List.take_add, List.drop_eq_getElem_cons hi, hget, List.take_succ_cons]
  have hquiet : ∀ b ∈ (ms.drop (i + 1)).take (j - i - 1), legacyCall b = none := by
    intro b hb
    obtain ⟨k, hk⟩ := List.mem_iff_getElem?.1 hb
    rw [List.getElem?_take] at hk
    split at hk
    · next hlt =>
      rw [List.getElem?_drop] at hk
      exact (h.between (i + 1 + k) b (by omega) (by omega) hk).2
    · cases hk
  rw [hsplit, lastAfter_append, LegacyFunctions.lastAfter, lastAfter_quiet hquiet, hcall,
    List.length_take, Nat.min_eq_left (Nat.le_of_lt hlength), Nat.zero_add]
  rfl

/-- Every result follows its call, and no result of the caller's own has the id a call is given. -/
structure Orderly (ms : List ChatMessage) : Prop where
  follows : ∀ (j : Nat) (m : ChatMessage), ms[j]? = some m → m.role = .function →
    ∃ i, Follows ms i j
  fresh : ∀ (i : Nat) (c : ChatMessage), ms[i]? = some c → (legacyCall c).isSome →
    ∀ m ∈ ms, m.toolCallId ≠ some (callFunctionId i)

theorem Rewritten.answers {req out : ChatFormat} (h : Rewritten req out)
    (horderly : Orderly req.messages) {i j : Nat} (hfollows : Follows req.messages i j) :
    (∃ c call o, req.messages[i]? = some c ∧ legacyCall c = some call ∧ out.messages[i]? = some o ∧
        toolCallOf i ((strField call "name").getD "") call ∈ itemsOf "tool_calls" o.extra) ∧
      ∃ o, out.messages[j]? = some o ∧ o.role = .tool ∧ o.toolCallId = some (callFunctionId i) ∧
        ∀ (k : Nat) (r : ChatMessage), out.messages[k]? = some r → r.role = .tool →
          r.toolCallId = some (callFunctionId i) → k = j := by
  have hid : ∀ {i j : Nat} {m o : ChatMessage}, Follows req.messages i j →
      req.messages[j]? = some m → Turned j (lastAfter 0 none (req.messages.take j)) m o →
      o.role = .tool ∧ o.toolCallId = some (callFunctionId i) := by
    intro i j m o hfollows hm hturned
    obtain ⟨c, call, hc, -, hcall, m', hm', hrole, hnoId, hquiet, -⟩ := hfollows.call
    obtain rfl := Option.some.inj (hm'.symm.trans hm)
    obtain ⟨htool, hresult⟩ := hturned.result hrole
    rw [hnoId, Option.none_or, lastAfter, hquiet, hfollows.lastAfter] at hresult
    exact ⟨htool, hresult⟩
  obtain ⟨c, call, hc, -, hcall, m, hm, -⟩ := hfollows.call
  obtain ⟨oc, hoc, hturnedCall⟩ := h.turn i c hc
  obtain ⟨o, ho, hturned⟩ := h.turn j m hm
  obtain ⟨htool, hresult⟩ := hid hfollows hm hturned
  refine ⟨⟨c, call, oc, hc, hcall, hoc, ?_⟩, o, ho, htool, hresult, fun k r hr hrole hsame => ?_⟩
  · rw [hturnedCall.calls, generated, hcall, Option.map_some]
    exact List.mem_append_right _ List.mem_cons_self
  · have hlt : k < req.messages.length := by
      rw [← h.length]
      exact (List.getElem?_eq_some_iff.1 hr).1
    obtain ⟨m', hm'⟩ : ∃ m', req.messages[k]? = some m' := ⟨_, List.getElem?_eq_getElem hlt⟩
    obtain ⟨r', hr', hturned'⟩ := h.turn k m' hm'
    obtain rfl := Option.some.inj (hr'.symm.trans hr)
    by_cases hfunction : m'.role = .function
    · obtain ⟨i', hfollows'⟩ := horderly.follows k m' hm' hfunction
      have hsame' := (hid hfollows' hm' hturned').2
      obtain rfl : i' = i := callFunctionId_inj (Option.some.inj (hsame'.symm.trans hsame))
      obtain ⟨-, -, -, -, -, mj, hmj, hrolej, -⟩ := hfollows.call
      rcases Nat.lt_trichotomy k j with hbefore | heq | hafter
      · exact absurd hfunction (hfollows.between k m' hfollows'.before hbefore hm').1
      · exact heq
      · exact absurd hrolej (hfollows'.between j mj hfollows.before hafter hmj).1
    · exact absurd ((hturned'.other hfunction).2.symm.trans hsame)
        (horderly.fresh i c hc (by rw [hcall]; rfl) m' (List.mem_of_getElem? hm'))

/-- The detour through tools: what the request becomes, the calls and results of an orderly history,
and the answer written back, streamed or whole. -/
theorem detour_spec :
    (∀ req out l, legacyFunctionsAsTools req = .ok (out, l) → Rewritten req out ∧
      (Orderly req.messages → ∀ i j, Follows req.messages i j →
        (∃ c call o, req.messages[i]? = some c ∧ legacyCall c = some call ∧
          out.messages[i]? = some o ∧
            toolCallOf i ((strField call "name").getD "") call ∈ itemsOf "tool_calls" o.extra) ∧
        ∃ o, out.messages[j]? = some o ∧ o.role = .tool ∧ o.toolCallId = some (callFunctionId i) ∧
          ∀ (k : Nat) (r : ChatMessage), out.messages[k]? = some r → r.role = .tool →
            r.toolCallId = some (callFunctionId i) → k = j)) ∧
      (∀ i j, callFunctionId i = callFunctionId j → i = j) ∧
      ∀ l chunks, Regular chunks → ∀ id model,
        answerOf id model (replyStream l chunks) = reply l (answerOf id model chunks) :=
  ⟨fun _ _ _ h => ⟨rewritten h,
    fun horderly _ _ hfollows => (rewritten h).answers horderly hfollows⟩,
    fun _ _ => callFunctionId_inj, fun l _ h => answerOf_replyStream l h⟩

def calling (name : String) : ChatMessage :=
  ⟨.assistant, none, none, none, none, [("function_call", .object [("name", .string name)])]⟩

def resultOf (name : String) : ChatMessage := ⟨.function, some "1", none, some name, none, []⟩

def requestOf (messages : List ChatMessage) : ChatFormat :=
  { ChatFormat.new "m" messages with
    extra := [("functions", .array [.object [("name", .string "w")]])] }

/-- A chunk with one fragment of a call. -/
def fragmentChunk (choice : Nat) (index : UInt64) (function : List (String × Value)) :
    ChatChunk where
  id := "r"
  model := "m"
  choiceIndex := choice
  delta := { ChatDelta.default with
    toolCalls := some
      [.object [("index", .number (.posInt index)), ("function", .object function)]] }
  finishReason := none
  logprobs := none
  usage := none
  serviceTier := none
  accountingUsage := none

def answeredOnce : List ChatMessage := [.ofText .user "Weather?", calling "w", resultOf "w"]

theorem follows_answeredOnce : Follows answeredOnce 1 2 where
  before := by decide
  call := ⟨_, _, rfl, rfl, rfl, _, rfl, rfl, rfl, rfl, rfl⟩
  between k b hlt hgt _ := by omega

theorem orderly_answeredOnce : Orderly answeredOnce where
  follows j m hm hrole := by
    match j, hm with
    | 0, hm => cases Option.some.inj hm; cases hrole
    | 1, hm => cases Option.some.inj hm; cases hrole
    | 2, _ => exact ⟨1, follows_answeredOnce⟩
  fresh i c _ _ m hm := by
    have hnone : ∀ m ∈ answeredOnce, m.toolCallId = none := by
      simp [answeredOnce, ChatMessage.ofText, calling, resultOf]
    rw [hnone m hm]
    exact Option.some_ne_none _ ∘ Eq.symm

/-- Two choices that call by turns. -/
def byTurns : List ChatChunk :=
  [fragmentChunk 0 0 [("name", .string "w"), ("arguments", .string "\x7b")],
    fragmentChunk 1 0 [("name", .string "w"), ("arguments", .string "[")],
    fragmentChunk 0 0 [("arguments", .string "\x7d")], fragmentChunk 1 1 [("name", .string "v")],
    fragmentChunk 1 0 [("arguments", .string "]")]]

theorem regular_byTurns : Regular byTurns where
  first k := by
    match k with
    | 0 => decide
    | 1 => decide
    | _ + 2 => exact fun _ h => absurd h (by simp [ofChoice, byTurns, fragmentChunk])
  one := by decide
  object := by simp [byTurns, fragmentChunk, deltaCalls]
  modern := by simp [byTurns, fragmentChunk, ChatDelta.default]

/-- A call with its result, and an answer of two choices, each with a call. -/
theorem detour_spec_byTurns :
    (∃ out l, legacyFunctionsAsTools (requestOf answeredOnce) = .ok (out, l) ∧
      Rewritten (requestOf answeredOnce) out ∧
      ∃ o, out.messages[2]? = some o ∧ o.role = .tool ∧
        o.toolCallId = some (callFunctionId 1) ∧
        ∀ (k : Nat) (r : ChatMessage), out.messages[k]? = some r → r.role = .tool →
          r.toolCallId = some (callFunctionId 1) → k = 2) ∧
      answerOf "r" "m" (replyStream ⟨true⟩ byTurns) = reply ⟨true⟩ (answerOf "r" "m" byTurns) ∧
      ((reply ⟨true⟩ (answerOf "r" "m" byTurns)).moreChoices.map fun choice =>
        (choice.message.extra.lookup "function_call").bind fun call => strField call "arguments") =
          [some "[]"] := by
  obtain ⟨out, l, h⟩ : ∃ out l, legacyFunctionsAsTools (requestOf answeredOnce) = .ok (out, l) :=
    ⟨_, _, rfl⟩
  obtain ⟨hrewritten, hanswers⟩ := detour_spec.1 _ out l h
  exact ⟨⟨out, l, h, hrewritten, (hanswers orderly_answeredOnce 1 2 follows_answeredOnce).2⟩,
    detour_spec.2.2 ⟨true⟩ byTurns regular_byTurns "r" "m", by decide⟩

def rewrittenMessages (messages : List ChatMessage) : List ChatMessage :=
  match legacyFunctionsAsTools (requestOf messages) with
  | .ok (out, _) => out.messages
  | .error _ => []

/-- Two calls before their results, a call under an id that is taken, and a stream without a call of
index zero. -/
theorem detour_breaks :
    (rewrittenMessages [calling "f", calling "g", resultOf "f", resultOf "g"]).map
        ChatMessage.toolCallId =
      [none, none, some "call_function_1", some "call_function_1"] ∧
      ((rewrittenMessages [⟨.assistant, none, none, none, none,
          [("tool_calls", .array [.object [("id", .string "call_function_1")]])]⟩,
          calling "f"]).flatMap fun m =>
        (itemsOf "tool_calls" m.extra).map fun call => strField call "id") =
        [some "call_function_1", some "call_function_1"] ∧
      ∃ chunk : ChatChunk,
        ((answerOf "r" "m" (replyStream ⟨true⟩ [chunk])).message.extra.lookup
          "function_call").isSome = false ∧
        ((reply ⟨true⟩ (answerOf "r" "m" [chunk])).message.extra.lookup
          "function_call").isSome = true :=
  ⟨by decide, by decide, fragmentChunk 0 1 [("name", .string "f")], by decide, by decide⟩

end LegacyFunctions
end Aisix
