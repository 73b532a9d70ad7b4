import BuildAdvisor.Scalar

/-!
Suggestions: the one shape in which every analysis reports.

* `Finding`, `Suggestion` — a proposed change with its estimated effect, without and with an
  identifier;
* `Priority.ofSavings` — urgency by the time a change saves;
* `Suggestion.score` — confidence times savings, by which suggestions are ranked;
* `Suggestion.report` — three lines of text.
-/

set_option autoImplicit false

namespace BuildAdvisor

inductive SuggestionKind where
  | forwardDeclaration
  | headerSplit
  | pimpl
  | pchAddition
  | pchRemoval
  | explicitInstantiation
deriving DecidableEq, Repr

def SuggestionKind.title : SuggestionKind → String
  | forwardDeclaration => "Forward declaration"
  | headerSplit => "Header split"
  | pimpl => "PIMPL pattern"
  | pchAddition => "PCH addition"
  | pchRemoval => "PCH removal"
  | explicitInstantiation => "Explicit template instantiation"

inductive Priority where
  | low
  | medium
  | high
  | critical
deriving DecidableEq, Repr

def Priority.title : Priority → String
  | low => "Low"
  | medium => "Medium"
  | high => "High"
  | critical => "Critical"

/-- A proposed change, before it has an identifier. -/
structure Finding (α : Type) where
  kind : SuggestionKind
  priority : Priority
  confidence : α
  title : String
  description : String
  file : String
  relatedFiles : List String
  affectedFiles : List String
  savings : α
  isSafe : Bool

structure Suggestion (α : Type) extends Finding α where
  id : String

variable {α : Type} [Scalar α]

/-- Thresholds in milliseconds. -/
def Priority.ofSavings (savings : α) : Priority :=
  if (1000.0 : α) ≤ savings then critical
  else if (250.0 : α) ≤ savings then high
  else if (50.0 : α) ≤ savings then medium
  else low

namespace Suggestion

def score (s : Suggestion α) : α :=
  s.confidence * s.savings

/-- Whether a person should look at the change before it is made. -/
def safety (s : Suggestion α) : String :=
  if s.isSafe then "safe" else "review"

def report [Numeral α] (s : Suggestion α) : String :=
  s!"[{s.priority.title}] {s.title} ({s.kind.title}, " ++
    Numeral.places 0 (s.confidence * (100.0 : α)) ++ "% confidence, ~" ++
    Numeral.places 1 s.savings ++ " ms, " ++ s.safety ++ ")\n   " ++ s.file ++ "\n   " ++
    s.description

end Suggestion

end BuildAdvisor
