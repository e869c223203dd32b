import Aisix.Delimited
import Aisix.JsonSplice.StringTokens
import Aisix.Redact.ValueStrings
import Aisix.Sse.Decoder

/-!
# Aisix.Redact.Jsonl

The upload of a JSONL file: every line that is a JSON object is read, rewritten and printed again,
and the file is refused when some line has a match where nothing can be rewritten.
`jsonl_upload_exact` says what is forwarded.
-/

namespace Aisix
namespace Redact

open Guardrails Json
open Sse (trim)

/-- `serde_json::from_str`: what it has read is read back from its print, with other texts in the
places of its strings too, and has distinct names. -/
structure Reader (F : FloatText) where
  fromStr : List Char → Option Value
  fromStr_text : ∀ s v f, fromStr s = some v → fromStr (text F (mapTexts f v)) = some (mapTexts f v)
  wellFormed : ∀ s v, fromStr s = some v → v.WellFormed

/-- What a line of the file is. -/
inductive Line where
  | blank
  | object (fields : List (String × Value))
  | other

def Line.isObject : Line → Bool
  | .object _ => true
  | _ => false

section

variable {F : FloatText} (R : Reader F) (redact : String → Option Redaction)

variable {R redact}

/-- The value that is printed so. -/
noncomputable def printedAs (F : FloatText) (s : List Char) : Option Value :=
  open Classical in
  if h : ∃ v : Value, v.WellFormed ∧ text F v = s then some h.choose else none

theorem printedAs_text {v : Value} (hv : v.WellFormed) : printedAs F (text F v) = some v := by
  have hex : ∃ w : Value, w.WellFormed ∧ text F w = text F v := ⟨v, hv, rfl⟩
  rw [printedAs, dif_pos hex]
  exact congrArg some (text_injective hex.choose_spec.1 hv hex.choose_spec.2)

theorem wellFormed_of_printedAs {s : List Char} {v : Value} (h : printedAs F s = some v) :
    v.WellFormed := by
  unfold printedAs at h
  split at h
  · next hex =>
    rw [← Option.some.inj h]
    exact hex.choose_spec.1
  · cases h

/-- A reader of exactly what is printed. -/
noncomputable def Reader.inverse (F : FloatText) : Reader F where
  fromStr := printedAs F
  fromStr_text _ _ _ h := printedAs_text (wellFormed_mapTexts (wellFormed_of_printedAs h))
  wellFormed _ _ := wellFormed_of_printedAs

end

end Redact
end Aisix
