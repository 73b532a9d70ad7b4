import BuildAdvisor.Advisor.Options
import BuildAdvisor.Error
import BuildAdvisor.Suggestion.Basic
import BuildAdvisor.Trace.Basic

/-!
Sources of suggestions.

* `SourceKind` — the five kinds, in the order in which they run;
* `Draft` — a finding, with an identifier if it brings its own;
* `Source` — what a source of some kind finds in a trace;
* `Advisor` — the registered sources, and how suggestions are named.
-/

set_option autoImplicit false

namespace BuildAdvisor.Advisor

inductive SourceKind where
  | forwardDeclaration
  | headerSplit
  | pch
  | pimpl
  | templateInstantiation
deriving DecidableEq, Repr

namespace SourceKind

def all : List SourceKind :=
  [forwardDeclaration, headerSplit, pch, pimpl, templateInstantiation]

def name : SourceKind → String
  | forwardDeclaration => "ForwardDeclaration"
  | headerSplit => "HeaderSplit"
  | pch => "Pch"
  | pimpl => "Pimpl"
  | templateInstantiation => "TemplateInstantiation"

def ofName? (s : String) : Option SourceKind :=
  all.find? fun k => k.name == s

def isEnabled {α : Type} (o : Options α) : SourceKind → Bool
  | forwardDeclaration => o.forwardDeclarations
  | headerSplit => o.headerSplits
  | pch => o.pch
  | pimpl => o.pimpl
  | templateInstantiation => o.templateInstantiations

end SourceKind

structure Draft (α : Type) where
  finding : Finding α
  id? : Option String

def Draft.unnamed {α : Type} (f : Finding α) : Draft α := ⟨f, none⟩

/-- A source answers for a trace and options alone: nothing is kept from one run to the next. -/
structure Source (α : Type) where
  kind : SourceKind
  name : String
  produce : Trace α → Options α → Except AnalysisError (List (Draft α))

end Advisor

/-- Sources in the order of registration; `identifier` names the suggestions by number. -/
structure Advisor (α : Type) where
  sources : List (Advisor.Source α)
  identifier : Nat → String

end BuildAdvisor
