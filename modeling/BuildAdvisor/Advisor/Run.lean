import BuildAdvisor.Advisor.Source
import BuildAdvisor.Suggestion.Ranking
import BuildAdvisor.Text.Quoted

/-!
Running the sources of an advisor.

* `Run` — what a run gives: a result, the sources that ran, and the next number;
* `Advisor.collect` — all enabled kinds in their order; a source that fails is left out;
* `Advisor.generateFor` — one kind, enabled or not; a source that fails ends the run;
* `Advisor.generateAll` — everything collected, ranked and filtered by the options.
-/

set_option autoImplicit false

namespace BuildAdvisor.Advisor

/-- `ran` holds the positions of the sources that ran, in the order in which they did. -/
structure Run (β : Type) where
  result : β
  ran : List Nat
  next : Nat

variable {α : Type}

/-! ## Identifiers -/

/-- Names the findings that bring no identifier, in order, by the numbers from `next` on. -/
def nameDrafts (identifier : Nat → String) : Nat → List (Draft α) → List (Suggestion α) × Nat
  | next, [] => ([], next)
  | next, d :: rest =>
    match d.id? with
    | some id =>
      let (later, n) := nameDrafts identifier next rest
      (⟨d.finding, id⟩ :: later, n)
    | none =>
      let (later, n) := nameDrafts identifier (next + 1) rest
      (⟨d.finding, identifier next⟩ :: later, n)

/-! ## Order -/

/-- The sources of a kind with their positions, in the order of registration. -/
def sourcesOf (a : Advisor α) (kind : SourceKind) : List (Nat × Source α) :=
  (a.sources.zipIdx.filter fun (s, _) => s.kind == kind).map fun (s, i) => (i, s)

/-- All sources of the enabled kinds, kind after kind. -/
def enabledSources (a : Advisor α) (o : Options α) : List (Nat × Source α) :=
  (SourceKind.all.filter (SourceKind.isEnabled o)).flatMap a.sourcesOf

/-! ## Runs -/

/-- The findings of a source, none if it fails. -/
def findingsOf (t : Trace α) (o : Options α) (s : Source α) : List (Draft α) :=
  match s.produce t o with
  | .ok drafts => drafts
  | .error _ => []

def collectDrafts (a : Advisor α) (t : Trace α) (o : Options α) : List (Draft α) :=
  (a.enabledSources o).flatMap fun (_, s) => findingsOf t o s

def collect (a : Advisor α) (t : Trace α) (o : Options α) (next : Nat) :
    Run (List (Suggestion α)) :=
  let (suggestions, next) := nameDrafts a.identifier next (a.collectDrafts t o)
  ⟨suggestions, (a.enabledSources o).map Prod.fst, next⟩

/-- Runs sources until one fails; those before it have used their numbers by then. -/
def runUntilFailure (identifier : Nat → String) (t : Trace α) (o : Options α) :
    Nat → List (Nat × Source α) → Run (Except AnalysisError (List (Suggestion α)))
  | next, [] => ⟨.ok [], [], next⟩
  | next, (i, s) :: rest =>
    match s.produce t o with
    | .error e => ⟨.error e, [i], next⟩
    | .ok drafts =>
      let (suggestions, next) := nameDrafts identifier next drafts
      let later := runUntilFailure identifier t o next rest
      ⟨later.result.map (suggestions ++ ·), i :: later.ran, later.next⟩

def generateFor (a : Advisor α) (kind : SourceKind) (t : Trace α) (o : Options α)
    (next : Nat) : Run (Except AnalysisError (List (Suggestion α))) :=
  runUntilFailure a.identifier t o next (a.sourcesOf kind)

variable [Scalar α]

def Options.thresholds (o : Options α) : Suggestion.Thresholds α :=
  ⟨o.minConfidence, o.minSavings⟩

/-- Nothing runs if the options are at fault. -/
def generateAll [Numeral α] (a : Advisor α) (t : Trace α) (o : Options α) (next : Nat) :
    Run (Except AnalysisError (List (Suggestion α))) :=
  match o.fault? with
  | some fault => ⟨.error (.analysis fault.message), [], next⟩
  | none =>
    let run := a.collect t o next
    ⟨.ok (Suggestion.select o.thresholds o.maxSuggestions run.result), run.ran, run.next⟩

/-- The advisor as it appears in a dump. -/
def dump (a : Advisor α) : String :=
  let names := a.sources.map fun s => Text.quoted s.name
  "SuggestionEngine \x7b sources: [" ++ ", ".intercalate names ++ "], .. \x7d"

end BuildAdvisor.Advisor
