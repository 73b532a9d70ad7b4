import BuildAdvisor.Data.Decode
import BuildAdvisor.Suggestion.Basic

/-!
Suggestions as data.

* `SuggestionKind`, `Priority` — named constants;
* `Suggestion.ofData?`, `Suggestion.toData` — only the two lists of files may be missing.
-/

set_option autoImplicit false

namespace BuildAdvisor

open Data

namespace SuggestionKind

def name : SuggestionKind → String
  | forwardDeclaration => "FORWARD_DECLARATION"
  | headerSplit => "HEADER_SPLIT"
  | pimpl => "PIMPL_PATTERN"
  | pchAddition => "PCH_ADDITION"
  | pchRemoval => "PCH_REMOVAL"
  | explicitInstantiation => "EXPLICIT_TEMPLATE_INSTANTIATION"

def all : List SuggestionKind :=
  [forwardDeclaration, headerSplit, pimpl, pchAddition, pchRemoval, explicitInstantiation]

def ofName? (s : String) : Option SuggestionKind :=
  all.find? fun k => k.name == s

theorem ofName?_name (k : SuggestionKind) : ofName? k.name = some k := by
  cases k <;> rfl

def ofData? : Value → Option SuggestionKind :=
  Value.constant? ofName?

def toData (k : SuggestionKind) : Value :=
  .string k.name

end SuggestionKind

namespace Priority

def name : Priority → String
  | low => "LOW"
  | medium => "MEDIUM"
  | high => "HIGH"
  | critical => "CRITICAL"

def all : List Priority := [low, medium, high, critical]

def ofName? (s : String) : Option Priority :=
  all.find? fun p => p.name == s

theorem ofName?_name (p : Priority) : ofName? p.name = some p := by
  cases p <;> rfl

def ofData? : Value → Option Priority :=
  Value.constant? ofName?

def toData (p : Priority) : Value :=
  .string p.name

end Priority

namespace Suggestion

def ofData? (v : Value) : Option (Suggestion Float) := do
  let f ← v.fields? ["id", "type", "priority", "confidence", "title", "description",
    "file_path", "related_files", "affected_files", "estimated_time_savings_ms", "is_safe"]
  let id ← f.required "id" Value.text?
  let kind ← f.required "type" SuggestionKind.ofData?
  let priority ← f.required "priority" Priority.ofData?
  let confidence ← f.required "confidence" Value.double?
  let title ← f.required "title" Value.text?
  let description ← f.required "description" Value.text?
  let file ← f.required "file_path" Value.text?
  let relatedFiles ← f.optional "related_files" [] Value.texts?
  let affectedFiles ← f.optional "affected_files" [] Value.texts?
  let savings ← f.required "estimated_time_savings_ms" Value.double?
  let isSafe ← f.required "is_safe" Value.flag?
  some
    { id, kind, priority, confidence, title, description, file, relatedFiles, affectedFiles,
      savings, isSafe }

def toData (s : Suggestion Float) : Value :=
  .record [("id", .string s.id), ("type", s.kind.toData), ("priority", s.priority.toData),
    ("confidence", .ofDouble s.confidence), ("title", .string s.title),
    ("description", .string s.description), ("file_path", .string s.file),
    ("related_files", .strings s.relatedFiles), ("affected_files", .strings s.affectedFiles),
    ("estimated_time_savings_ms", .ofDouble s.savings), ("is_safe", .bool s.isSafe)]

end Suggestion

end BuildAdvisor
