import Aisix.Anthropic.Inbound
import Aisix.Redact.ChatSlots

/-!
# Aisix.ChatReasoning

Which chat messages hold nothing but a model's reasoning.
-/

namespace Aisix

open Json Anthropic

def isReasoningPart (part : Value) : Bool := (Redact.reasoningShape part).isSome

/-- The texts of one reasoning part, joined. -/
def reasoningPartText (part : Value) : String :=
  match Redact.reasoningShape part with
  | none => ""
  | some (.text s) => s
  | some (.entries _ items) => String.join (items.filterMap fun e => strField e "text")

namespace ChatMessage

def reasoningText (m : ChatMessage) : Option String :=
  match ((m.extra.lookup "reasoning_content").bind Value.asStr?).filter (· ≠ "") with
  | some text => some text
  | none => (some (String.join ((m.contentBlocks.getD []).map reasoningPartText))).filter (· ≠ "")

def isReasoningOnly (m : ChatMessage) : Bool :=
  m.role == .assistant && m.contentStr == "" && (m.contentBlocks.getD []).all isReasoningPart &&
    (messageCalls m).isEmpty && m.reasoningText.isSome

theorem isReasoningOnly_of_ne {m : ChatMessage} (h : m.role ≠ .assistant) :
    m.isReasoningOnly = false := by
  unfold isReasoningOnly
  rw [beq_false_of_ne h]
  rfl

end ChatMessage
end Aisix
