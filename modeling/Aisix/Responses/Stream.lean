import Aisix.Responses.ItemLogs

/-!
# Aisix.Responses.Stream

A whole run of the encoder: the opening events, the items, and one terminal event that repeats them.
-/

namespace Aisix
namespace Responses

open Json Anthropic NumberedLogs

namespace ResponsesSseEncoder

variable {s s' s'' : ResponsesSseEncoder} {es fs : List EventData} {tcs : List Value}

/-- Nothing but the items has changed. -/
def Frame (s s' : ResponsesSseEncoder) : Prop :=
  s' = { s with
    channels := s'.channels, nextOutputIndex := s'.nextOutputIndex, minted := s'.minted
    toolCalls := s'.toolCalls }

theorem Frame.refl (s : ResponsesSseEncoder) : Frame s s := rfl

theorem Frame.trans (h : Frame s s') (h' : Frame s' s'') : Frame s s'' := by
  unfold Frame at *
  rw [h', h]

theorem Frame.sentCreated (h : Frame s s') : s'.sentCreated = s.sentCreated := by rw [h]

theorem Frame.reply (h : Frame s s') : s'.reply = s.reply := by rw [h]

theorem Frame.sealer (h : Frame s s') : s'.seal = s.seal := by rw [h]

theorem Frame.overflowed (h : Frame s s') : s'.overflowed = s.overflowed := by rw [h]

/-- A step on the channels. -/
structure Writes (s : ResponsesSseEncoder) (out : List EventData × ResponsesSseEncoder) : Prop where
  frame : Frame s out.2
  toolCalls : out.2.toolCalls = s.toolCalls
  logs : ∀ {es tcs}, Logs s es tcs → Logs out.2 (es ++ out.1) tcs

theorem Writes.skip (s : ResponsesSseEncoder) : Writes s ([], s) where
  frame := .refl s
  toolCalls := rfl
  logs h := by simpa using h

theorem Writes.andThen {a b : List EventData × ResponsesSseEncoder} (ha : Writes s a)
    (hb : Writes a.2 b) : Writes s (a.1 ++ b.1, b.2) where
  frame := ha.frame.trans hb.frame
  toolCalls := hb.toolCalls.trans ha.toolCalls
  logs h := by
    rw [← List.append_assoc]
    exact hb.logs (ha.logs h)

theorem Writes.ite {p : Prop} [Decidable p] {a b : List EventData × ResponsesSseEncoder}
    (ha : p → Writes s a) (hb : ¬p → Writes s b) : Writes s (if p then a else b) := by
  split
  · next h => exact ha h
  · next h => exact hb h

theorem writes_openItem {c : Channel} (h : (s.channels c).opened = none) (uuid : Nat → String) :
    Writes s (s.openItem uuid c) where
  frame := rfl
  toolCalls := rfl
  logs hlogs := hlogs.openItem h uuid

theorem writes_appendText (s : ResponsesSseEncoder) (c : Channel) (text : String) :
    Writes s (s.appendText c text) where
  frame := by
    unfold appendText
    split <;> rfl
  toolCalls := by
    unfold appendText
    split <;> rfl
  logs hlogs := hlogs.appendText text

theorem writes_closeChannel (s : ResponsesSseEncoder) (c : Channel) :
    Writes s (s.closeChannel c) where
  frame := by
    unfold closeChannel
    split <;> rfl
  toolCalls := by
    unfold closeChannel
    split <;> rfl
  logs hlogs := hlogs.closeChannel c

theorem writes_writeText (s : ResponsesSseEncoder) (uuid : Nat → String) (c : Channel)
    (text : String) : Writes s (s.writeText uuid c text) := by
  refine Writes.andThen (a := if (s.channels c).opened.isNone then s.openItem uuid c else ([], s))
    ?_ (writes_appendText _ c text)
  exact .ite (fun h => writes_openItem (Option.isNone_iff_eq_none.mp h) uuid) fun _ => .skip s

theorem writes_readReasoning (s : ResponsesSseEncoder) (uuid : Nat → String) (reasoning : String) :
    Writes s (s.readReasoning uuid reasoning) := by
  refine .ite (fun _ => .skip s) fun _ => ?_
  refine Writes.andThen
    (a := if (s.channels .reasoning).opened.isNone then s.closeText else ([], s)) ?_
    (writes_writeText _ uuid .reasoning reasoning)
  exact .ite (fun _ => writes_closeChannel s .text) fun _ => .skip s

theorem writes_readContent (s : ResponsesSseEncoder) (uuid : Nat → String) (content : String) :
    Writes s (s.readContent uuid content) :=
  .ite (fun _ => .skip s) fun _ => (writes_closeChannel s .refusal).andThen
    (writes_writeText _ uuid .text content)

theorem writes_readRefusal (s : ResponsesSseEncoder) (uuid : Nat → String) (refusal : String) :
    Writes s (s.readRefusal uuid refusal) :=
  .ite (fun _ => .skip s) fun _ => (writes_closeChannel s .text).andThen
    (writes_writeText _ uuid .refusal refusal)

/-- A step that reads the fragments `calls`. -/
structure Reads (s : ResponsesSseEncoder) (calls : List Value)
    (out : List EventData × ResponsesSseEncoder) : Prop where
  frame : Frame s out.2
  logs : ∀ {es tcs}, Logs s es tcs → Heard s tcs →
    Logs out.2 (es ++ out.1) (tcs ++ calls) ∧ Heard out.2 (tcs ++ calls)

theorem Writes.reads {out : List EventData × ResponsesSseEncoder} (h : Writes s out) :
    Reads s [] out where
  frame := h.frame
  logs hlogs hheard := by
    rw [List.append_nil]
    refine ⟨h.logs hlogs, fun key => ?_⟩
    rw [h.toolCalls]
    exact hheard key

theorem Reads.andThen {calls calls' : List Value} {a b : List EventData × ResponsesSseEncoder}
    (ha : Reads s calls a) (hb : Reads a.2 calls' b) :
    Reads s (calls ++ calls') (a.1 ++ b.1, b.2) where
  frame := ha.frame.trans hb.frame
  logs hlogs hheard := by
    obtain ⟨hlogs', hheard'⟩ := ha.logs hlogs hheard
    rw [← List.append_assoc, ← List.append_assoc]
    exact hb.logs hlogs' hheard'

theorem frame_openCall (s : ResponsesSseEncoder) (uuid : Nat → String) (key : Nat) :
    Frame s (s.openCall uuid key) := by
  unfold openCall
  split <;> rfl

theorem frame_readFragment (s : ResponsesSseEncoder) (tc : Value) :
    Frame s (s.readFragment tc).2 := by
  unfold readFragment
  split <;> rfl

theorem reads_readToolCall (s : ResponsesSseEncoder) (uuid : Nat → String) (tc : Value) :
    Reads s [tc] ((s.openCall uuid (callIndex tc)).readFragment tc) where
  frame := (frame_openCall s uuid _).trans (frame_readFragment _ tc)
  logs hlogs hheard := hlogs.readToolCall hheard uuid tc

theorem reads_readToolCalls (s : ResponsesSseEncoder) (uuid : Nat → String) (calls : List Value) :
    Reads s calls (s.readToolCalls uuid calls) := by
  induction calls generalizing s with
  | nil => exact (Writes.skip s).reads
  | cons tc rest ih => exact (reads_readToolCall s uuid tc).andThen (ih _)

theorem reads_readDelta (s : ResponsesSseEncoder) (uuid : Nat → String) (delta : ChatDelta) :
    Reads s (delta.toolCalls.getD []) (s.readDelta uuid delta) := by
  have hthought := writes_readReasoning s uuid (reasoningOf delta)
  have hclosed : Writes (s.readReasoning uuid (reasoningOf delta)).2
      (if delta.content.getD "" ≠ "" ∨ delta.toolCalls.getD [] ≠ [] ∨ refusalOf delta ≠ "" then
          (s.readReasoning uuid (reasoningOf delta)).2.closeReasoning
        else ([], (s.readReasoning uuid (reasoningOf delta)).2)) :=
    .ite (fun _ => writes_closeChannel _ .reasoning) fun _ => .skip _
  have htexts := ((hthought.andThen hclosed).andThen
    (writes_readContent _ uuid (delta.content.getD ""))).andThen
      (writes_readRefusal _ uuid (refusalOf delta))
  exact htexts.reads.andThen (reads_readToolCalls _ uuid (delta.toolCalls.getD []))

theorem readDelta_silent {delta : ChatDelta} (hcontent : delta.content.getD "" = "")
    (hcalls : delta.toolCalls.getD [] = []) (hreasoning : reasoningOf delta = "")
    (hrefusal : refusalOf delta = "") (s : ResponsesSseEncoder) (uuid : Nat → String) :
    s.readDelta uuid delta = ([], s) := by
  simp [readDelta, hcontent, hcalls, hreasoning, hrefusal, readReasoning, readContent, readRefusal,
    readToolCalls]

/-! ### The close -/

variable {parse : String → Option Value} {items raw : List EventData}

/-- All items are closed: the texts, and behind them the calls that were announced. -/
def Closed (parse : String → Option Value) (s : ResponsesSseEncoder) (items : List EventData)
    (tcs : List Value) : Prop :=
  ∃ es, Logs s es tcs ∧ Heard s tcs ∧ (∀ c, (s.channels c).opened = none) ∧
    items = es ++ (s.toolCalls.values.filter (·.itemAdded)).flatMap (ToolCallState.closing parse)

theorem opened_closeChannel (s : ResponsesSseEncoder) (c c' : Channel) :
    (((s.closeChannel c).2.channels c').opened =
      if c' = c then none else (s.channels c').opened) := by
  cases hopen : (s.channels c).opened with
  | none =>
    simp only [closeChannel, hopen]
    split
    · next hc => rw [hc, hopen]
    · rfl
  | some o =>
    simp only [closeChannel, hopen]
    by_cases hc : c' = c
    · subst hc
      rw [if_pos rfl, setChannel_channels, Function.update_self]
    · rw [if_neg hc, setChannel_channels, Function.update_of_ne hc]

/-- The texts closed, in the order of `closeItems`. -/
def closeTexts (s : ResponsesSseEncoder) : List EventData × ResponsesSseEncoder :=
  let (thought, s) := s.closeReasoning
  let (told, s) := s.closeText
  let (refused, s) := s.closeRefusal
  (thought ++ told ++ refused, s)

theorem writes_closeTexts (s : ResponsesSseEncoder) : Writes s s.closeTexts :=
  ((writes_closeChannel s .reasoning).andThen (writes_closeChannel _ .text)).andThen
    (writes_closeChannel _ .refusal)

theorem opened_closeTexts (s : ResponsesSseEncoder) (c : Channel) :
    (s.closeTexts.2.channels c).opened = none := by
  have hlast :
      s.closeTexts.2 =
      (((s.closeChannel .reasoning).2.closeChannel .text).2.closeChannel .refusal).2 :=
    rfl
  rw [hlast]
  cases c <;> simp [opened_closeChannel]

theorem closeItems_open (h : s.itemsClosed = false) :
    s.closeItems parse =
      (({ s with itemsClosed := true } : ResponsesSseEncoder).closeTexts.1 ++
        (({ s with itemsClosed := true } : ResponsesSseEncoder).closeTexts.2.toolCalls.values.filter
          (·.itemAdded)).flatMap (ToolCallState.closing parse),
        ({ s with itemsClosed := true } : ResponsesSseEncoder).closeTexts.2) := by
  rw [closeItems, h]
  rfl

theorem closeItems_closed (h : s.itemsClosed = true) : s.closeItems parse = ([], s) := by
  rw [closeItems, h]
  rfl

theorem frame_closeItems (parse : String → Option Value) (s : ResponsesSseEncoder) :
    Frame { s with itemsClosed := true } (s.closeItems parse).2 := by
  cases h : s.itemsClosed with
  | false =>
    rw [closeItems_open h]
    exact (writes_closeTexts _).frame
  | true =>
    rw [closeItems_closed h, ← h]
    rfl

theorem Closed.closeItems (hlogs : Logs s es tcs) (hheard : Heard s tcs)
    (hopen : s.itemsClosed = false) :
    Closed parse (s.closeItems parse).2 (es ++ (s.closeItems parse).1) tcs := by
  have hlogs' : Logs { s with itemsClosed := true } es tcs :=
    ⟨hlogs.shelved, hlogs.opened, hlogs.closed, hlogs.calls⟩
  have hreads := (writes_closeTexts { s with itemsClosed := true }).reads.logs hlogs' hheard
  rw [List.append_nil] at hreads
  rw [closeItems_open hopen]
  exact ⟨_, hreads.1, hreads.2, opened_closeTexts _, by rw [← List.append_assoc]⟩

theorem terminal_completedEvent (parse : String → Option Value) (status : String)
    (reason : Option String) (s : ResponsesSseEncoder) :
    ∃ response, (s.completedEvent parse status reason).1.terminal? = some response ∧
      response.output = s.finalOutputItems parse := by
  refine ⟨{ s with finished := true }.responseObject parse status true reason, ?_, rfl⟩
  simp only [completedEvent]
  split <;> rfl

/-! ### The run -/

/-- The opening events, then the items. -/
def Opened (raw items : List EventData) : Prop :=
  ∃ created inProgress, raw = .created created :: .inProgress inProgress :: items

theorem Opened.append (h : Opened raw items) (fs : List EventData) :
    Opened (raw ++ fs) (items ++ fs) := by
  obtain ⟨created, inProgress, rfl⟩ := h
  exact ⟨created, inProgress, rfl⟩

/-- The answer is being read, and `raw` was written of it. -/
structure Streaming (s : ResponsesSseEncoder) (raw : List EventData) (tcs : List Value) : Prop where
  finished : s.finished = false
  pendingStatus : s.pendingStatus = none
  itemsClosed : s.itemsClosed = false
  said : ∃ es, Logs s es tcs ∧ Heard s tcs ∧
    if s.sentCreated then Opened raw es else raw = [] ∧ es = []

/-- The finish was read, and the terminal event is out or waits for the usage. -/
structure Over (parse : String → Option Value) (s : ResponsesSseEncoder) (raw : List EventData)
    (tcs : List Value) : Prop where
  sentCreated : s.sentCreated = true
  itemsClosed : s.itemsClosed = true
  pending : s.finished = false → s.pendingStatus.isSome
  said : ∃ items, Closed parse s items tcs ∧
    if s.finished then ∃ last response, last.terminal? = some response ∧
      response.output = s.finalOutputItems parse ∧ Opened raw (items ++ [last])
    else Opened raw items

/-- The encoders differ in what no item depends on. -/
def Alike (s s' : ResponsesSseEncoder) : Prop :=
  s' = { s with
    usageSeen := s'.usageSeen, usage := s'.usage, serviceTier := s'.serviceTier,
    accumulatedBytes := s'.accumulatedBytes, overflowed := s'.overflowed,
    sequenceNumber := s'.sequenceNumber }

theorem Logs.alike (h : Logs s es tcs) (halike : Alike s s') : Logs s' es tcs := by
  rw [halike]
  exact ⟨h.shelved, h.opened, h.closed, h.calls⟩

theorem Streaming.alike (h : Streaming s raw tcs) (halike : Alike s s') : Streaming s' raw tcs := by
  obtain ⟨es, hlogs, hheard, hraw⟩ := h.said
  have hlogs' := hlogs.alike halike
  rw [halike] at hlogs' ⊢
  exact ⟨h.finished, h.pendingStatus, h.itemsClosed, es, hlogs', hheard, hraw⟩

theorem Over.alike (h : Over parse s raw tcs) (halike : Alike s s') : Over parse s' raw tcs := by
  obtain ⟨items, ⟨es, hlogs, hheard, hopened, hitems⟩, hraw⟩ := h.said
  have hlogs' := hlogs.alike halike
  rw [halike] at hlogs' ⊢
  exact ⟨h.sentCreated, h.itemsClosed, h.pending, items, ⟨es, hlogs', hheard, hopened, hitems⟩,
    hraw⟩

theorem alike_note (s : ResponsesSseEncoder) (usage : Option UsageStats)
    (tier : Option ServiceTier) : Alike s ((s.accumulateUsage usage).noteServiceTier tier) := by
  unfold accumulateUsage noteServiceTier
  cases usage <;> cases tier.bind ServiceTier.openaiValue <;> rfl

/-- What `readChunk` opens the stream with, if anything. -/
def openStream (parse : String → Option Value) (s : ResponsesSseEncoder) (chunk : ChatChunk) :
    List EventData × ResponsesSseEncoder :=
  if s.Opens chunk then (s.openingEvents parse, { s with sentCreated := true }) else ([], s)

theorem openStream_alike (parse : String → Option Value) (s : ResponsesSseEncoder)
    (chunk : ChatChunk) :
    ∃ sent, (s.openStream parse chunk).2 = { s with sentCreated := sent } := by
  unfold openStream
  split
  · exact ⟨true, rfl⟩
  · exact ⟨s.sentCreated, rfl⟩

theorem Streaming.readItems (h : Streaming s raw tcs) (uuid : Nat → String) (chunk : ChatChunk) :
    let a := s.openStream parse chunk
    let d := a.2.readDelta uuid chunk.delta
    (chunk.finishReason.isSome → d.2.sentCreated = true) ∧
      Streaming d.2 (raw ++ (a.1 ++ d.1)) (tcs ++ chunk.delta.toolCalls.getD []) := by
  intro a d
  obtain ⟨es, hlogs, hheard, hraw⟩ := h.said
  obtain ⟨sent, hsent⟩ := s.openStream_alike parse chunk
  have hreads : Reads a.2 (chunk.delta.toolCalls.getD []) d := reads_readDelta a.2 uuid chunk.delta
  have hlogs' : Logs a.2 es tcs := by
    rw [show a.2 = _ from hsent]
    exact ⟨hlogs.shelved, hlogs.opened, hlogs.closed, hlogs.calls⟩
  have hheard' : Heard a.2 tcs := by
    rw [show a.2 = _ from hsent]
    exact hheard
  obtain ⟨hlogsd, hheardd⟩ := hreads.logs hlogs' hheard'
  have hsentd : d.2.sentCreated = a.2.sentCreated := hreads.frame.sentCreated
  have hrest : d.2.finished = false ∧ d.2.pendingStatus = none ∧ d.2.itemsClosed = false := by
    rw [show d.2 = _ from hreads.frame, show a.2 = _ from hsent]
    exact ⟨h.finished, h.pendingStatus, h.itemsClosed⟩
  rw [hsentd]
  by_cases hopens : s.Opens chunk
  · have ha : a = (s.openingEvents parse, { s with sentCreated := true }) := if_pos hopens
    rw [if_neg (by simp [hopens.1])] at hraw
    refine ⟨fun _ => by rw [ha], hrest.1, hrest.2.1, hrest.2.2, es ++ d.1, hlogsd, hheardd, ?_⟩
    rw [hsentd, ha, if_pos rfl, hraw.1, hraw.2]
    exact ⟨_, _, rfl⟩
  · have ha : a = ([], s) := if_neg hopens
    have ha₁ : a.1 = [] := congrArg Prod.fst ha
    have ha₂ : a.2 = s := congrArg Prod.snd ha
    rw [ha₂]
    cases hcreated : s.sentCreated with
    | true =>
      refine ⟨fun _ => rfl, hrest.1, hrest.2.1, hrest.2.2, es ++ d.1, hlogsd, hheardd, ?_⟩
      rw [hcreated, if_pos rfl] at hraw
      rw [hsentd, ha₁, ha₂, hcreated, if_pos rfl]
      exact hraw.append d.1
    | false =>
      rw [hcreated] at hraw
      simp only [Opens, hcreated, true_and, not_or, not_not] at hopens
      have hd : d = ([], a.2) :=
        readDelta_silent hopens.1 hopens.2.1 hopens.2.2.1 hopens.2.2.2.2 a.2 uuid
      refine ⟨fun hfinish => absurd hfinish hopens.2.2.2.1, hrest.1, hrest.2.1, hrest.2.2,
        es ++ d.1, hlogsd, hheardd, ?_⟩
      rw [hsentd, ha₁, ha₂, hcreated, hd]
      simpa using hraw

theorem Streaming.close (h : Streaming s raw tcs) (hsent : s.sentCreated = true) :
    ∃ items, Closed parse (s.closeItems parse).2 items tcs ∧
      Opened (raw ++ (s.closeItems parse).1) items := by
  obtain ⟨es, hlogs, hheard, hraw⟩ := h.said
  rw [hsent, if_pos rfl] at hraw
  exact ⟨_, Closed.closeItems hlogs hheard h.itemsClosed, hraw.append _⟩

theorem Closed.complete (h : Closed parse s items tcs) (hraw : Opened raw items)
    (hsent : s.sentCreated = true) (hclosed : s.itemsClosed = true) (status : String)
    (reason : Option String) :
    Over parse (s.completedEvent parse status reason).2
      (raw ++ [(s.completedEvent parse status reason).1]) tcs := by
  obtain ⟨es, hlogs, hheard, hopened, hitems⟩ := h
  obtain ⟨response, hterminal, houtput⟩ := terminal_completedEvent parse status reason s
  refine ⟨hsent, hclosed, fun hfalse => Bool.noConfusion hfalse, items,
    ⟨es, ⟨hlogs.shelved, hlogs.opened, hlogs.closed, hlogs.calls⟩, hheard, hopened, hitems⟩, ?_⟩
  have hfinished : (s.completedEvent parse status reason).2.finished = true := rfl
  rw [hfinished, if_pos rfl]
  exact ⟨_, response, hterminal, houtput, hraw.append _⟩

theorem readChunk_none {chunk : ChatChunk} (h : chunk.finishReason = none) (uuid : Nat → String) :
    s.readChunk parse uuid chunk =
      ((s.openStream parse chunk).1 ++ ((s.openStream parse chunk).2.readDelta uuid chunk.delta).1,
        ((s.openStream parse chunk).2.readDelta uuid chunk.delta).2) := by
  unfold readChunk
  rw [h]
  rfl

theorem readChunk_some {chunk : ChatChunk} {reason : FinishReason}
    (h : chunk.finishReason = some reason) (uuid : Nat → String) :
    let a := s.openStream parse chunk
    let d := a.2.readDelta uuid chunk.delta
    let c := d.2.closeItems parse
    s.readChunk parse uuid chunk =
      if c.2.usageSeen then
        (a.1 ++ d.1 ++ c.1 ++
          [(c.2.completedEvent parse (responsesStatus reason).1 (responsesStatus reason).2).1],
          (c.2.completedEvent parse (responsesStatus reason).1 (responsesStatus reason).2).2)
      else
        (a.1 ++ d.1 ++ c.1,
          { c.2 with
            pendingStatus := some (responsesStatus reason).1
            pendingReason := (responsesStatus reason).2 }) := by
  unfold readChunk
  rw [h]
  rfl

theorem Streaming.readChunk (h : Streaming s raw tcs) (uuid : Nat → String) (chunk : ChatChunk) :
    (chunk.finishReason = none → Streaming (s.readChunk parse uuid chunk).2
      (raw ++ (s.readChunk parse uuid chunk).1) (tcs ++ chunk.delta.toolCalls.getD [])) ∧
    (chunk.finishReason.isSome → Over parse (s.readChunk parse uuid chunk).2
      (raw ++ (s.readChunk parse uuid chunk).1) (tcs ++ chunk.delta.toolCalls.getD [])) := by
  obtain ⟨hsent, hstreaming⟩ := h.readItems uuid chunk
  refine ⟨fun hnone => ?_, fun hsome => ?_⟩
  · rw [readChunk_none hnone]
    exact hstreaming
  · obtain ⟨reason, hreason⟩ := Option.isSome_iff_exists.mp hsome
    obtain ⟨items, hclosed, hopened⟩ := hstreaming.close (hsent hsome)
    have hframe :=
      frame_closeItems parse ((s.openStream parse chunk).2.readDelta uuid chunk.delta).2
    have hsentc := hframe.sentCreated.trans (hsent hsome)
    have hclosedc :
        ((((s.openStream parse chunk).2.readDelta uuid chunk.delta).2.closeItems
          parse).2).itemsClosed =
        true := by rw [hframe]
    rw [readChunk_some hreason]
    rw [List.append_assoc] at hopened
    split
    · rw [← List.append_assoc raw]
      exact hclosed.complete hopened hsentc hclosedc _ _
    · next husage =>
      obtain ⟨es, hlogs, hheard, hnone, hitems⟩ := hclosed
      have hfinished : ((((s.openStream parse chunk).2.readDelta uuid chunk.delta).2.closeItems
          parse).2).finished = false := by
        rw [hframe]
        exact hstreaming.finished
      refine ⟨hsentc, hclosedc, fun _ => rfl, items,
        ⟨es, ⟨hlogs.shelved, hlogs.opened, hlogs.closed, hlogs.calls⟩, hheard, hnone, hitems⟩, ?_⟩
      rw [if_neg (by simp [hfinished])]
      exact hopened

/-- What a chunk leaves alone. -/
structure Kept (s s' : ResponsesSseEncoder) : Prop where
  reply : s'.reply = s.reply
  sealer : s'.seal = s.seal
  overflowed : s.overflowed = true → s'.overflowed = true

theorem Kept.trans (h : Kept s s') (h' : Kept s' s'') : Kept s s'' :=
  ⟨h'.reply.trans h.reply, h'.sealer.trans h.sealer,
    fun hover => h'.overflowed (h.overflowed hover)⟩

theorem kept_readChunk (parse : String → Option Value) (s : ResponsesSseEncoder)
    (uuid : Nat → String) (chunk : ChatChunk) : Kept s (s.readChunk parse uuid chunk).2 := by
  have hopen : Kept s (s.openStream parse chunk).2 := by
    obtain ⟨sent, hsent⟩ := openStream_alike parse s chunk
    rw [hsent]
    exact ⟨rfl, rfl, id⟩
  have hframe := (reads_readDelta (s.openStream parse chunk).2 uuid chunk.delta).frame
  have hread : Kept s ((s.openStream parse chunk).2.readDelta uuid chunk.delta).2 :=
    hopen.trans ⟨hframe.reply, hframe.sealer, fun hover => by rw [hframe.overflowed, hover]⟩
  cases hreason : chunk.finishReason with
  | none =>
    rw [readChunk_none hreason]
    exact hread
  | some reason =>
    have hclose :=
      frame_closeItems parse ((s.openStream parse chunk).2.readDelta uuid chunk.delta).2
    have hkept :=
      hread.trans ⟨hclose.reply, hclose.sealer, fun hover => by rw [hclose.overflowed]; exact hover⟩
    rw [readChunk_some hreason]
    split
    · exact hkept.trans ⟨rfl, rfl, id⟩
    · exact hkept.trans ⟨rfl, rfl, id⟩

theorem reserveAssembly_cases (s : ResponsesSseEncoder) (additional : Nat) :
    s.reserveAssembly additional = (false, { s with overflowed := true }) ∨
      s.reserveAssembly additional =
        (true, { s with accumulatedBytes := s.accumulatedBytes + additional }) := by
  unfold reserveAssembly
  split
  · exact .inl rfl
  · exact .inr rfl

/-- A chunk with its usage and its tier noted. -/
def noted (s : ResponsesSseEncoder) (chunk : ChatChunk) : ResponsesSseEncoder :=
  (s.accumulateUsage chunk.firstChoiceOnly.usage).noteServiceTier chunk.firstChoiceOnly.serviceTier

theorem alike_noted (s : ResponsesSseEncoder) (chunk : ChatChunk) : Alike s (s.noted chunk) :=
  alike_note s _ _

theorem nextData_finished (h : s.finished = true) (uuid : Nat → String) (chunk : ChatChunk) :
    s.nextData parse uuid chunk = ([], s) := by
  rw [nextData, h]
  rfl

theorem nextData_pending (h : s.finished = false) {chunk : ChatChunk} {status : String}
    (hp : (s.noted chunk).pendingStatus = some status) (uuid : Nat → String) :
    s.nextData parse uuid chunk =
      if (s.noted chunk).usageSeen then
        ([({ s.noted chunk with pendingStatus := none, pendingReason := none }.completedEvent parse
            status (s.noted chunk).pendingReason).1],
          ({ s.noted chunk with pendingStatus := none, pendingReason := none }.completedEvent parse
            status (s.noted chunk).pendingReason).2)
      else ([], s.noted chunk) := by
  unfold noted at hp
  unfold nextData
  rw [h]
  simp only [Bool.false_eq_true, if_false, hp]
  rfl

theorem nextData_streaming (h : s.finished = false) {chunk : ChatChunk}
    (hp : (s.noted chunk).pendingStatus = none) (uuid : Nat → String) :
    s.nextData parse uuid chunk =
      match (s.noted chunk).reserveAssembly
        ((s.noted chunk).assemblyBytes chunk.firstChoiceOnly.delta) with
      | (false, s) => ([], s)
      | (true, s) => s.readChunk parse uuid chunk.firstChoiceOnly := by
  unfold noted at hp
  unfold nextData
  rw [h]
  simp only [Bool.false_eq_true, if_false, hp]
  rfl

theorem kept_noted (s : ResponsesSseEncoder) (chunk : ChatChunk) : Kept s (s.noted chunk) := by
  unfold noted accumulateUsage noteServiceTier
  cases chunk.firstChoiceOnly.usage <;> cases chunk.firstChoiceOnly.serviceTier.bind
    ServiceTier.openaiValue <;> exact ⟨rfl, rfl, id⟩

theorem kept_nextData (parse : String → Option Value) (s : ResponsesSseEncoder)
    (uuid : Nat → String) (chunk : ChatChunk) : Kept s (s.nextData parse uuid chunk).2 := by
  cases hfinished : s.finished with
  | true =>
    rw [nextData_finished hfinished]
    exact ⟨rfl, rfl, id⟩
  | false =>
    have hnoted := kept_noted s chunk
    cases hp : (s.noted chunk).pendingStatus with
    | some status =>
      rw [nextData_pending hfinished hp]
      split
      · exact hnoted.trans ⟨rfl, rfl, id⟩
      · exact hnoted
    | none =>
      rw [nextData_streaming hfinished hp]
      rcases reserveAssembly_cases (s.noted chunk)
        ((s.noted chunk).assemblyBytes chunk.firstChoiceOnly.delta) with hover | hfits
      · rw [hover]
        exact hnoted.trans ⟨rfl, rfl, fun _ => rfl⟩
      · rw [hfits]
        refine hnoted.trans (Kept.trans ?_ (kept_readChunk _ _ uuid _))
        exact ⟨rfl, rfl, id⟩

theorem Streaming.nextData (h : Streaming s raw tcs) (uuid : Nat → String) (chunk : ChatChunk)
    (hfits : (s.nextData parse uuid chunk).2.overflowed = false) :
    (chunk.firstChoiceOnly.finishReason = none → Streaming (s.nextData parse uuid chunk).2
      (raw ++ (s.nextData parse uuid chunk).1)
      (tcs ++ chunk.firstChoiceOnly.delta.toolCalls.getD [])) ∧
    (chunk.firstChoiceOnly.finishReason.isSome → Over parse (s.nextData parse uuid chunk).2
      (raw ++ (s.nextData parse uuid chunk).1)
      (tcs ++ chunk.firstChoiceOnly.delta.toolCalls.getD [])) := by
  have hnoted := h.alike (alike_noted s chunk)
  rw [nextData_streaming h.finished hnoted.pendingStatus] at hfits ⊢
  rcases reserveAssembly_cases (s.noted chunk)
    ((s.noted chunk).assemblyBytes chunk.firstChoiceOnly.delta) with hover | hread
  · rw [hover] at hfits
    cases hfits
  · rw [hread]
    refine Streaming.readChunk (hnoted.alike ?_) uuid chunk.firstChoiceOnly
    rfl

theorem Over.nextData (h : Over parse s raw tcs) (uuid : Nat → String) (chunk : ChatChunk) :
    Over parse (s.nextData parse uuid chunk).2 (raw ++ (s.nextData parse uuid chunk).1) tcs := by
  cases hfinished : s.finished with
  | true =>
    rw [nextData_finished hfinished, List.append_nil]
    exact h
  | false =>
    have hnoted := h.alike (alike_noted s chunk)
    have hopen : (s.noted chunk).finished = false := by
      rw [alike_noted s chunk]
      exact hfinished
    obtain ⟨status, hstatus⟩ := Option.isSome_iff_exists.mp (hnoted.pending hopen)
    rw [nextData_pending hfinished hstatus]
    obtain ⟨items, ⟨es, hlogs, hheard, hnone, hitems⟩, hraw⟩ := hnoted.said
    rw [hopen, if_neg Bool.false_ne_true] at hraw
    split
    · have hclosed : Closed parse
          { s.noted chunk with pendingStatus := none, pendingReason := none } items tcs :=
        ⟨es, ⟨hlogs.shelved, hlogs.opened, hlogs.closed, hlogs.calls⟩, hheard, hnone, hitems⟩
      exact hclosed.complete hraw hnoted.sentCreated hnoted.itemsClosed _ _
    · rw [List.append_nil]
      exact hnoted

theorem events_append (sealer : Seal) (number : Nat) (ds ds' : List EventData) :
    events sealer number (ds ++ ds') = events sealer number ds ++
      events sealer (number + ds.length) ds' := by
  induction ds generalizing number with
  | nil => rfl
  | cons d ds ih =>
    simp only [List.cons_append, events, ih, List.length_cons]
    rw [Nat.add_assoc, Nat.add_comm 1]

/-- The events that left are `raw`, numbered from 0. -/
structure Sent (s : ResponsesSseEncoder) (evs : List ResponsesSseEvent) (raw : List EventData) :
    Prop where
  stamped : evs = events s.seal 0 raw
  sequenceNumber : s.sequenceNumber = raw.length

theorem Sent.emit {evs : List ResponsesSseEvent} (h : Sent s evs raw)
    {out : List EventData × ResponsesSseEncoder} (hseal : out.2.seal = s.seal) :
    Sent (s.emit out).2 (evs ++ (s.emit out).1) (raw ++ out.1) where
  stamped := by
    have hkept : (s.emit out).2.seal = s.seal := hseal
    rw [hkept, events_append, Nat.zero_add, ← h.sequenceNumber, h.stamped]
    rfl
  sequenceNumber := by
    rw [List.length_append, ← h.sequenceNumber]
    rfl

theorem alike_emit (s : ResponsesSseEncoder) (out : List EventData × ResponsesSseEncoder) :
    Alike out.2 (s.emit out).2 := rfl

/-- The fragments of the answer: those of the chunks up to the one that finishes it. -/
def fragmentsRead : List ChatChunk → List Value
  | [] => []
  | chunk :: rest =>
    chunk.firstChoiceOnly.delta.toolCalls.getD [] ++
      if chunk.firstChoiceOnly.finishReason.isSome then [] else fragmentsRead rest

variable {evs : List ResponsesSseEvent}

theorem Over.encode (h : Over parse s raw tcs) (hsent : Sent s evs raw) (uuid : Nat → String)
    (chunks : List ChatChunk) :
    ∃ raw', Over parse (s.encode parse uuid chunks).2 raw' tcs ∧
      Sent (s.encode parse uuid chunks).2 (evs ++ (s.encode parse uuid chunks).1) raw' := by
  induction chunks generalizing s evs raw with
  | nil => exact ⟨raw, h, by rw [ResponsesSseEncoder.encode, List.append_nil]; exact hsent⟩
  | cons chunk rest ih =>
    have hstep := (h.nextData uuid chunk).alike (alike_emit s (s.nextData parse uuid chunk))
    obtain ⟨raw', hover, hsent'⟩ := ih hstep (hsent.emit (kept_nextData parse s uuid chunk).sealer)
    refine ⟨raw', hover, ?_⟩
    rw [List.append_assoc] at hsent'
    exact hsent'

theorem kept_encode (parse : String → Option Value) (s : ResponsesSseEncoder) (uuid : Nat → String)
    (chunks : List ChatChunk) : Kept s (s.encode parse uuid chunks).2 := by
  induction chunks generalizing s with
  | nil => exact ⟨rfl, rfl, id⟩
  | cons chunk rest ih =>
    refine (kept_nextData parse s uuid chunk).trans (Kept.trans ?_ (ih _))
    exact ⟨rfl, rfl, id⟩

theorem Streaming.encode (h : Streaming s raw tcs) (hsent : Sent s evs raw) (uuid : Nat → String)
    (chunks : List ChatChunk) (hfits : (s.encode parse uuid chunks).2.overflowed = false) :
    ∃ raw', (Streaming (s.encode parse uuid chunks).2 raw' (tcs ++ fragmentsRead chunks) ∨
        Over parse (s.encode parse uuid chunks).2 raw' (tcs ++ fragmentsRead chunks)) ∧
      Sent (s.encode parse uuid chunks).2 (evs ++ (s.encode parse uuid chunks).1) raw' := by
  induction chunks generalizing s evs raw tcs with
  | nil =>
    refine ⟨raw, .inl ?_, ?_⟩
    · rw [fragmentsRead, List.append_nil]
      exact h
    · rw [ResponsesSseEncoder.encode, List.append_nil]
      exact hsent
  | cons chunk rest ih =>
    have hstepfits : (s.nextData parse uuid chunk).2.overflowed = false := by
      refine Bool.eq_false_iff.mpr fun hover => ?_
      have hlast := (kept_encode parse (s.nextEvents parse uuid chunk).2 uuid rest).overflowed hover
      exact absurd hlast (Bool.eq_false_iff.mp hfits)
    obtain ⟨hgoes, hends⟩ := h.nextData uuid chunk hstepfits
    have hsent' := hsent.emit (kept_nextData parse s uuid chunk).sealer
    rw [fragmentsRead]
    cases hreason : chunk.firstChoiceOnly.finishReason with
    | none =>
      have hstep := (hgoes hreason).alike (alike_emit s (s.nextData parse uuid chunk))
      obtain ⟨raw', hrest, hsentr⟩ := ih hstep hsent' hfits
      rw [List.append_assoc] at hrest hsentr
      exact ⟨raw', hrest, hsentr⟩
    | some reason =>
      have hstep :=
        (hends (by rw [hreason]; rfl)).alike (alike_emit s (s.nextData parse uuid chunk))
      obtain ⟨raw', hrest, hsentr⟩ := hstep.encode hsent' uuid rest
      rw [List.append_assoc] at hsentr
      refine ⟨raw', .inr ?_, hsentr⟩
      rw [Option.isSome_some, if_pos rfl, List.append_nil]
      exact hrest

/-- The whole stream is out: `items`, then the terminal event that repeats them. -/
def Told (parse : String → Option Value) (s : ResponsesSseEncoder) (raw : List EventData)
    (tcs : List Value) :
    Prop :=
  ∃ items last response, Closed parse s items tcs ∧ last.terminal? = some response ∧
    response.output = s.finalOutputItems parse ∧ Opened raw (items ++ [last])

theorem Over.told (h : Over parse s raw tcs) (hfinished : s.finished = true) :
    Told parse s raw tcs := by
  obtain ⟨items, hclosed, hraw⟩ := h.said
  rw [hfinished, if_pos rfl] at hraw
  obtain ⟨last, response, hterminal, houtput, hopened⟩ := hraw
  exact ⟨items, last, response, hclosed, hterminal, houtput, hopened⟩

theorem forceData_finished (h : s.finished = true) : s.forceData parse = ([], s) := by
  rw [forceData, h]
  rfl

theorem forceData_open (h : s.finished = false) :
    let c := { s with pendingStatus := none, pendingReason := none }.closeItems parse
    s.forceData parse =
      (c.1 ++ [(c.2.completedEvent parse (s.pendingStatus.getD "completed") s.pendingReason).1],
        (c.2.completedEvent parse (s.pendingStatus.getD "completed") s.pendingReason).2) := by
  unfold forceData
  rw [h]
  rfl

theorem told_forceData (h : Streaming s raw tcs ∨ Over parse s raw tcs)
    (hout : s.sentCreated = true) :
    Told parse (s.forceData parse).2 (raw ++ (s.forceData parse).1) tcs := by
  cases hfinished : s.finished with
  | true =>
    rcases h with h | h
    · rw [h.finished] at hfinished
      cases hfinished
    · rw [forceData_finished hfinished, List.append_nil]
      exact h.told hfinished
  | false =>
    have hframe := frame_closeItems parse { s with pendingStatus := none, pendingReason := none }
    have hsent := hframe.sentCreated.trans hout
    have hitemsClosed :
        ({ s with pendingStatus := none, pendingReason := none }.closeItems parse).2.itemsClosed =
        true := by rw [hframe]
    have hclosed : ∃ items,
        Closed parse ({ s with pendingStatus := none, pendingReason := none }.closeItems parse).2
          items tcs ∧
        Opened (raw ++ ({ s with pendingStatus := none, pendingReason := none }.closeItems parse).1)
          items := by
      rcases h with h | h
      · obtain ⟨es, hlogs, hheard, hraw⟩ := h.said
        have hstreaming :
            Streaming { s with pendingStatus := none, pendingReason := none } raw tcs :=
          ⟨h.finished, rfl, h.itemsClosed, es,
            ⟨hlogs.shelved, hlogs.opened, hlogs.closed, hlogs.calls⟩, hheard, hraw⟩
        exact hstreaming.close hout
      · obtain ⟨items, ⟨es, hlogs, hheard, hnone, hitems⟩, hraw⟩ := h.said
        rw [hfinished, if_neg Bool.false_ne_true] at hraw
        rw [closeItems_closed
          (s := { s with pendingStatus := none, pendingReason := none }) h.itemsClosed,
          List.append_nil]
        exact ⟨items, ⟨es, ⟨hlogs.shelved, hlogs.opened, hlogs.closed, hlogs.calls⟩, hheard,
          hnone, hitems⟩, hraw⟩
    obtain ⟨items, hitems, hraw⟩ := hclosed
    rw [forceData_open hfinished, ← List.append_assoc]
    exact (hitems.complete hraw hsent hitemsClosed _ _).told rfl

theorem kept_forceData (parse : String → Option Value) (s : ResponsesSseEncoder) :
    Kept s (s.forceData parse).2 := by
  cases hfinished : s.finished with
  | true =>
    rw [forceData_finished hfinished]
    exact ⟨rfl, rfl, id⟩
  | false =>
    have hframe := frame_closeItems parse { s with pendingStatus := none, pendingReason := none }
    rw [forceData_open hfinished]
    have hclose :
        Kept s ({ s with pendingStatus := none, pendingReason := none }.closeItems parse).2 :=
      ⟨hframe.reply, hframe.sealer, fun hover => by rw [hframe.overflowed]; exact hover⟩
    exact hclose.trans ⟨rfl, rfl, id⟩

/-- What a client is sent: the events of every chunk, and of the finish. -/
def stream (parse : String → Option Value) (uuid : Nat → String) (s : ResponsesSseEncoder)
    (chunks : List ChatChunk) : List ResponsesSseEvent :=
  let (evs, s) := s.encode parse uuid chunks
  evs ++ (s.forceFinish parse).1

theorem logs_new (responseId modelDisplayName : String) (createdAt : Int)
    (reply : ResponsesReplyContext) (sealer : Seal) :
    Logs ((new responseId modelDisplayName createdAt reply).sealingIds sealer) [] [] where
  shelved := by
    convert Shelved.init using 1
    · funext k
      cases k <;> rfl
    · rfl
  opened _ _ ho := nomatch ho
  closed _ _ ho := nomatch ho
  calls _ _ ht := nomatch ht

/-- Every stream with output is a run of items behind the opening events, closed, and the terminal
event. -/
theorem stream_told (parse : String → Option Value) (uuid : Nat → String)
    (responseId modelDisplayName : String) (createdAt : Int) (reply : ResponsesReplyContext)
    (sealer : Seal) (chunks : List ChatChunk)
    (hfits : (((new responseId modelDisplayName createdAt reply).sealingIds sealer).encode parse
      uuid chunks).2.overflowed = false)
    (hout : (((new responseId modelDisplayName createdAt reply).sealingIds sealer).encode parse uuid
      chunks).2.hasOutput = true) :
    ∃ s raw, Told parse s raw (fragmentsRead chunks) ∧
      ((new responseId modelDisplayName createdAt reply).sealingIds sealer).stream
      parse uuid chunks =
        events sealer 0 raw ∧ s.reply = reply := by
  have hnew :
      Streaming ((new responseId modelDisplayName createdAt reply).sealingIds sealer) [] [] :=
    ⟨rfl, rfl, rfl, [], logs_new responseId modelDisplayName createdAt reply sealer,
      fun _ => ⟨fun _ => rfl, fun _ => rfl⟩, ⟨rfl, rfl⟩⟩
  have hsent₀ : Sent ((new responseId modelDisplayName createdAt reply).sealingIds sealer) [] [] :=
    ⟨rfl, rfl⟩
  have hkept :=
    kept_encode parse ((new responseId modelDisplayName createdAt reply).sealingIds sealer) uuid
      chunks
  obtain ⟨raw, hrun, hsent⟩ := hnew.encode hsent₀ uuid chunks hfits
  rw [List.nil_append] at hrun hsent
  have hforce := kept_forceData parse
    (((new responseId modelDisplayName createdAt reply).sealingIds sealer).encode
      parse uuid chunks).2
  have hemit := hsent.emit hforce.sealer
  refine ⟨_, _, told_forceData hrun hout, hemit.stamped.trans ?_, hforce.reply.trans hkept.reply⟩
  exact congrArg (events · 0 _) (hforce.sealer.trans hkept.sealer)

end ResponsesSseEncoder

end Responses
end Aisix
