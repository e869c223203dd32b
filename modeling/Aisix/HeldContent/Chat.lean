import Aisix.Chat

/-!
# Aisix.HeldContent.Chat

The content a held chat chunk counts for, measured on the typed deltas of its choices and on its
JSON. `held_alike_iff` says when the two are the same, and when a stream reaches its limit at the
same chunk both ways.
-/

namespace Aisix
namespace HeldContent

open Json

def len (s : String) : Nat := s.utf8ByteSize

def strLen (v : Option Value) : Nat := (v.bind Value.asStr?).elim 0 len

/-- `as_array`, and nothing where there is none. -/
def itemsOf : Option Value → List Value
  | some (.array items) => items
  | _ => []

/-! ### The typed delta -/

def toolArgs (tc : Value) : Nat :=
  strLen ((tc.get "function").bind fun f => f.get "arguments") +
    strLen ((tc.get "custom").bind fun c => c.get "input")

def chatDelta (delta : ChatDelta) : Nat :=
  let text := delta.content.elim 0 len
  let reasoning := delta.reasoningContent.elim 0 len
  let toolArgs := ((delta.toolCalls.getD []).map toolArgs).sum
  let legacyArgs :=
    strLen ((delta.functionCall.or (delta.extra.lookup "function_call")).bind fun call =>
      call.get "arguments")
  let transcript := strLen (delta.audio.bind fun audio => audio.get "transcript")
  text + reasoning + toolArgs + legacyArgs + transcript

/-! ### The JSON of the chunk -/

structure Parts where
  scan : String
  reasoning : Nat

namespace Parts

def default : Parts := ⟨"", 0⟩

def held (p : Parts) : Nat := len p.scan + p.reasoning

def scanStr (p : Parts) (v : Option Value) : Parts :=
  { p with scan := p.scan ++ (v.bind Value.asStr?).getD "" }

def reasoningStr (p : Parts) (v : Option Value) : Parts :=
  { p with reasoning := p.reasoning + strLen v }

end Parts

def contentPartParts (p : Parts) (part : Value) : Parts :=
  let p := p.scanStr (part.get "text")
  if (part.get "type").bind Value.asStr? = some "refusal" then p.scanStr (part.get "refusal") else p

def toolCallParts (p : Parts) (tc : Value) : Parts :=
  let p := p.scanStr ((tc.get "function").bind fun f => f.get "arguments")
  p.scanStr ((tc.get "custom").bind fun c => c.get "input")

/-- One turn of the loop over the deltas. -/
def deltaParts (p : Parts) (delta : Value) : Parts :=
  let p :=
    match delta.get "content" with
    | some (.array parts) => parts.foldl contentPartParts p
    | content => p.scanStr content
  let p := p.scanStr (delta.get "refusal")
  let p := (itemsOf (delta.get "tool_calls")).foldl toolCallParts p
  let p := p.scanStr ((delta.get "function_call").bind fun f => f.get "arguments")
  let p := p.reasoningStr (delta.get "reasoning_content")
  p.reasoningStr (delta.get "reasoning")

def chatChunkParts (v : Value) : Parts :=
  ((itemsOf (v.get "choices")).filterMap fun c => c.get "delta").foldl deltaParts .default

/-! ### The typed deltas of a chunk -/

/-- An absent member and a null one are the same to an `Option` field. -/
def present : Option Value → Option Value
  | some .null => none
  | v => v

def readRole (v : Option Value) : Option (Option Role) :=
  match present v with
  | none => some none
  | some (.string "system") => some (some .system)
  | some (.string "developer") => some (some .developer)
  | some (.string "user") => some (some .user)
  | some (.string "assistant") => some (some .assistant)
  | some (.string "tool") => some (some .tool)
  | some (.string "function") => some (some .function)
  | some _ => none

def readText (v : Option Value) : Option (Option String) :=
  match present v with
  | none => some none
  | some (.string s) => some (some s)
  | some _ => none

def readItems (v : Option Value) : Option (Option (List Value)) :=
  match present v with
  | none => some none
  | some (.array items) => some (some items)
  | some _ => none

def typedFields : List String :=
  ["role", "content", "tool_calls", "function_call", "reasoning_content", "audio"]

/-- The delta as it is deserialised: what no field takes goes to `extra`. -/
def readDelta : Value → Option ChatDelta
  | .object fields =>
    (readRole (fields.lookup "role")).bind fun role =>
    (readText (fields.lookup "content")).bind fun content =>
    (readItems (fields.lookup "tool_calls")).bind fun toolCalls =>
    (readText (fields.lookup "reasoning_content")).bind fun reasoningContent =>
    some ⟨role, content, toolCalls, present (fields.lookup "function_call"), reasoningContent,
      present (fields.lookup "audio"), fields.filter fun e => e.1 ∉ typedFields⟩
  | _ => none

/-- The typed deltas of the choices of a chunk; a choice without a delta has an empty one. -/
def readDeltas (v : Value) : Option (List ChatDelta) :=
  (itemsOf (v.get "choices")).mapM fun c => (c.get "delta").elim (some .default) readDelta

/-! ### The limit of a stream -/

/-- The chunk at which a stream that has `held` goes over its limit. -/
def firstOver (cap : Nat) : Nat → List Nat → Option Nat
  | _, [] => none
  | held, n :: sizes =>
    if cap < held + n then some 0 else (firstOver cap (held + n) sizes).map (· + 1)

/-- A transcript counts on the typed side only. -/
def transcript (d : ChatDelta) : Nat := strLen (d.audio.bind fun audio => audio.get "transcript")

/-- A refusal and reasoning in the field `reasoning` count on the JSON side only. -/
def unread (d : ChatDelta) : Nat :=
  strLen (d.extra.lookup "refusal") + strLen (d.extra.lookup "reasoning")

theorem len_append (a b : String) : len (a ++ b) = len a + len b := String.utf8ByteSize_append

theorem held_scanStr (p : Parts) (v : Option Value) : (p.scanStr v).held = p.held + strLen v := by
  unfold Parts.scanStr Parts.held strLen
  dsimp only
  rw [len_append]
  cases v.bind Value.asStr? with
  | none =>
    rw [Option.getD_none, Option.elim_none]
    exact Nat.add_right_comm ..
  | some s =>
    rw [Option.getD_some, Option.elim_some]
    omega

theorem held_reasoningStr (p : Parts) (v : Option Value) :
    (p.reasoningStr v).held = p.held + strLen v := by
  unfold Parts.reasoningStr Parts.held
  dsimp only
  omega

theorem held_toolCallParts (p : Parts) (tc : Value) :
    (toolCallParts p tc).held = p.held + toolArgs tc := by
  unfold toolCallParts toolArgs
  dsimp only
  rw [held_scanStr, held_scanStr, Nat.add_assoc]

theorem held_foldl_toolCallParts (tcs : List Value) (p : Parts) :
    (tcs.foldl toolCallParts p).held = p.held + (tcs.map toolArgs).sum := by
  induction tcs generalizing p with
  | nil => rfl
  | cons tc tcs ih =>
    rw [List.foldl_cons, ih, held_toolCallParts, List.map_cons, List.sum_cons, Nat.add_assoc]

/-! ### One delta -/

theorem readText_spec {v : Option Value} {text : Option String} (h : readText v = some text) :
    strLen v = text.elim 0 len ∧ ∀ parts, v ≠ some (.array parts) := by
  unfold readText at h
  cases v with
  | none =>
    cases h
    exact ⟨rfl, by rintro _ ⟨⟩⟩
  | some v =>
    cases v with
    | null =>
      cases h
      exact ⟨rfl, by rintro _ ⟨⟩⟩
    | string s =>
      cases h
      exact ⟨rfl, by rintro _ ⟨⟩⟩
    | bool b => cases h
    | number n => cases h
    | array items => cases h
    | object fields => cases h

theorem readItems_spec {v : Option Value} {items : Option (List Value)}
    (h : readItems v = some items) : itemsOf v = items.getD [] := by
  unfold readItems at h
  cases v with
  | none =>
    cases h
    rfl
  | some v =>
    cases v with
    | null =>
      cases h
      rfl
    | array items' =>
      cases h
      rfl
    | bool b => cases h
    | number n => cases h
    | string s => cases h
    | object fields => cases h

theorem present_bind_get (v : Option Value) (name : String) :
    (present v).bind (fun v => v.get name) = v.bind fun v => v.get name := by
  cases v with
  | none => rfl
  | some v => cases v <;> rfl

theorem held_deltaParts {v : Value} {d : ChatDelta} (h : readDelta v = some d) (p : Parts) :
    (deltaParts p v).held + transcript d = p.held + chatDelta d + unread d := by
  cases v with
  | object fields =>
    unfold readDelta at h
    obtain ⟨role, -, h⟩ := Option.bind_eq_some_iff.mp h
    obtain ⟨content, hcontent, h⟩ := Option.bind_eq_some_iff.mp h
    obtain ⟨toolCalls, htools, h⟩ := Option.bind_eq_some_iff.mp h
    obtain ⟨reasoning, hreasoning, h⟩ := Option.bind_eq_some_iff.mp h
    obtain rfl := Option.some.inj h
    obtain ⟨hcontent, hnoParts⟩ := readText_spec hcontent
    obtain ⟨hreasoning, -⟩ := readText_spec hreasoning
    have htools := readItems_spec htools
    have hextra : ∀ name, (fields.filter fun e => decide (e.1 ∉ typedFields)).lookup name =
        if decide (name ∉ typedFields) then fields.lookup name else none :=
      Value.lookup_filter (fun name => decide (name ∉ typedFields)) fields
    have hlegacy : ((present (fields.lookup "function_call")).or
          ((fields.filter fun e => decide (e.1 ∉ typedFields)).lookup "function_call")).bind
            (fun call => call.get "arguments") =
        (fields.lookup "function_call").bind fun f => f.get "arguments" := by
      rw [hextra "function_call", if_neg (by decide), Option.or_none, present_bind_get]
    have hget : ∀ name, (Value.object fields).get name = fields.lookup name := fun _ => rfl
    unfold deltaParts chatDelta unread transcript
    simp only [hget]
    rw [held_reasoningStr, held_reasoningStr, held_scanStr, held_foldl_toolCallParts, held_scanStr,
      held_scanStr, hlegacy, hextra "refusal", hextra "reasoning", if_pos (by decide),
      if_pos (by decide), hcontent, hreasoning, htools]
    omega
  | null => cases h
  | bool b => cases h
  | number n => cases h
  | string s => cases h
  | array items => cases h

/-! ### One chunk -/

theorem held_foldl_deltaParts {choices : List Value} {ds : List ChatDelta}
    (h : choices.mapM (fun c => (c.get "delta").elim (some .default) readDelta) = some ds)
    (p : Parts) :
    ((choices.filterMap fun c => c.get "delta").foldl deltaParts p).held + (ds.map transcript).sum =
      p.held + (ds.map chatDelta).sum + (ds.map unread).sum := by
  induction choices generalizing p ds with
  | nil =>
    cases h
    rfl
  | cons c choices ih =>
    rw [List.mapM_cons] at h
    obtain ⟨d, hd, h⟩ := Option.bind_eq_some_iff.mp h
    obtain ⟨ds', hds, h⟩ := Option.bind_eq_some_iff.mp h
    obtain rfl := Option.some.inj h
    rw [List.map_cons, List.map_cons, List.map_cons, List.sum_cons, List.sum_cons, List.sum_cons]
    cases hdelta : c.get "delta" with
    | none =>
      rw [hdelta] at hd
      obtain rfl := Option.some.inj hd
      rw [List.filterMap_cons, hdelta]
      dsimp only
      have hrest := ih hds p
      have hempty : transcript .default = 0 ∧ chatDelta .default = 0 ∧ unread .default = 0 :=
        ⟨rfl, rfl, rfl⟩
      omega
    | some delta =>
      rw [hdelta] at hd
      rw [List.filterMap_cons, hdelta]
      dsimp only
      rw [List.foldl_cons]
      have hhere := held_deltaParts hd p
      have hrest := ih hds (deltaParts p delta)
      omega

theorem held_chatChunkParts {v : Value} {ds : List ChatDelta} (h : readDeltas v = some ds) :
    (chatChunkParts v).held + (ds.map transcript).sum = (ds.map chatDelta).sum +
    (ds.map unread).sum := by
  have hfold := held_foldl_deltaParts h .default
  have hempty : Parts.default.held = 0 := rfl
  unfold chatChunkParts
  omega

theorem chunk_alike_iff {v : Value} {ds : List ChatDelta} (h : readDeltas v = some ds) :
    (ds.map chatDelta).sum = (chatChunkParts v).held ↔
    (ds.map transcript).sum = (ds.map unread).sum := by
  have hheld := held_chatChunkParts h
  omega

/-! ### Streams -/

/-- Two streams go over every limit at the same chunk if and only if their chunks count for the
same. -/
theorem firstOver_inj {α : Type} (size size' : α → Nat) (chunks : List α) (held : Nat)
    (h : ∀ cap, firstOver cap held (chunks.map size) = firstOver cap held (chunks.map size')) :
    ∀ c ∈ chunks, size c = size' c := by
  induction chunks generalizing held with
  | nil =>
    intro c hc
    cases hc
  | cons c chunks ih =>
    have hsame : size c = size' c := by
      -- a limit that one of the two goes over at once and the other does not
      have hleast : ∀ f g :
          α →
          Nat,
          (∀ cap, firstOver cap held ((c :: chunks).map f) =
          firstOver cap held ((c :: chunks).map g)) → g c ≤ f c := by
        intro f g hfg
        by_contra hlt
        have hcap := hfg (held + f c)
        rw [List.map_cons, List.map_cons, firstOver, firstOver, if_neg (Nat.lt_irrefl _),
          if_pos (by omega)] at hcap
        obtain ⟨n, -, hn⟩ := Option.map_eq_some_iff.mp hcap
        exact Nat.succ_ne_zero n hn
      exact Nat.le_antisymm (hleast size' size fun cap => (h cap).symm) (hleast size size' h)
    refine List.forall_mem_cons.mpr ⟨hsame, ih (held + size c) ?_⟩
    intro cap
    by_cases hcap : cap < held + size c
    · cases chunks with
      | nil => rfl
      | cons c' chunks =>
        rw [List.map_cons, List.map_cons, firstOver, firstOver, if_pos (by omega),
          if_pos (by omega)]
    · have hover := h cap
      rw [List.map_cons, List.map_cons, firstOver, firstOver, ← hsame, if_neg hcap,
        if_neg hcap] at hover
      exact Option.map_injective (fun _ _ => Nat.succ.inj) hover

theorem firstOver_congr {α : Type} {size size' : α → Nat} {chunks : List α}
    (h : ∀ c ∈ chunks, size c = size' c) (cap held : Nat) :
    firstOver cap held (chunks.map size) = firstOver cap held (chunks.map size') := by
  rw [List.map_congr_left h]

/-- The chunks of a stream and their typed deltas: each chunk counts for the same both ways, and
every limit is reached at the same chunk both ways, if and only if in each chunk the transcripts are
as long as the refusals and the reasoning that the typed measure leaves out. -/
theorem held_alike_iff (chunks : List (Value × List ChatDelta))
    (h : ∀ c ∈ chunks, readDeltas c.1 = some c.2) :
    ((∀ c ∈ chunks, (c.2.map chatDelta).sum = (chatChunkParts c.1).held) ↔
        ∀ c ∈ chunks, (c.2.map transcript).sum = (c.2.map unread).sum) ∧
      ((∀ cap, firstOver cap 0 (chunks.map fun c => (c.2.map chatDelta).sum) =
          firstOver cap 0 (chunks.map fun c => (chatChunkParts c.1).held)) ↔
        ∀ c ∈ chunks, (c.2.map transcript).sum = (c.2.map unread).sum) := by
  have hchunks : (∀ c ∈ chunks, (c.2.map chatDelta).sum = (chatChunkParts c.1).held) ↔
      ∀ c ∈ chunks, (c.2.map transcript).sum = (c.2.map unread).sum :=
    forall₂_congr fun c hc => chunk_alike_iff (h c hc)
  refine ⟨hchunks, ?_⟩
  rw [← hchunks]
  constructor
  · exact firstOver_inj _ _ chunks 0
  · intro hsame cap
    exact firstOver_congr hsame cap 0

/-- The chunk of one choice with the delta `fields`. -/
def chunkOf (fields : List (String × Value)) : Value :=
  .object [("choices", .array [.object [("delta", .object fields)]])]

theorem held_alike_iff_content :
    (∀ c ∈
      [(chunkOf [("content", .string "hi")], [{ ChatDelta.default with content := some "hi" }])],
        (c.2.map chatDelta).sum = (chatChunkParts c.1).held) ↔
      ∀ c ∈
        [(chunkOf [("content", .string "hi")], [{ ChatDelta.default with content := some "hi" }])],
        (c.2.map transcript).sum = (c.2.map unread).sum :=
  (held_alike_iff
    [(chunkOf [("content", .string "hi")], [{ ChatDelta.default with content := some "hi" }])] (by
    intro c hc
    rw [List.mem_singleton.mp hc]
    rfl)).1

/-- A refusal counts on the JSON side only, and a transcript on the typed side only. -/
theorem refusal_not_held :
    (readDeltas (chunkOf [("refusal", .string "no")])).map (fun ds => (ds.map chatDelta).sum) =
    some 0 ∧
      (chatChunkParts (chunkOf [("refusal", .string "no")])).held = 2 ∧
      (readDeltas (chunkOf [("audio", .object [("transcript", .string "hi")])])).map
      (fun ds => (ds.map chatDelta).sum) =
        some 2 ∧
      (chatChunkParts (chunkOf [("audio", .object [("transcript", .string "hi")])])).held = 0 := by
  refine ⟨by decide, by decide, by decide, by decide⟩

end HeldContent
end Aisix
