import BuildAdvisor.Advisor.BuiltIn
import BuildAdvisor.Advisor.Run
import BuildAdvisor.CommandLine.Help
import BuildAdvisor.CommandLine.Parser
import BuildAdvisor.Config
import BuildAdvisor.Json.Parser
import BuildAdvisor.Json.Printer
import BuildAdvisor.Pch.Codec
import BuildAdvisor.Suggestion.Codec
import BuildAdvisor.Suggestion.Identifier
import BuildAdvisor.Symbols.SourceFiles
import BuildAdvisor.Symbols.StaticTable
import BuildAdvisor.Template.Codec
import BuildAdvisor.Trace.Codec

/-!
Running a command line.

* `Outcome` — what a run prints, or why it fails;
* `suggestText`, `pchText`, `templatesText` — the results as text;
* `Request.run` — one request over files;
* `run` — a command line over files.

A run is a function of the words and of the files it reads.
-/

set_option autoImplicit false

namespace BuildAdvisor.CommandLine

/-- A run fails over its inputs; a command line that asks for nothing runnable is refused. -/
inductive Outcome where
  | printed (text : String)
  | failed (message : String)
  | refused (message : String)

namespace Outcome

def exitCode : Outcome → Nat
  | printed _ => 0
  | failed _ => 1
  | refused _ => 2

def output : Outcome → String
  | printed text => text
  | _ => ""

def failure? : Outcome → Option String
  | failed message => some message
  | _ => none

def ofExcept : Except String String → Outcome
  | .ok text => .printed text
  | .error message => .failed message

end Outcome

/-! ## Files -/

def readText (files : Files.Reader) (path : String) : Option String :=
  match files path with
  | .error _ => none
  | .ok bytes =>
    match Utf8.decode bytes with
    | .error _ => none
    | .ok text => some (String.ofList text)

def readTrace (files : Files.Reader) (path : String) : Except String (Trace Float) :=
  match readText files path with
  | none => .error ("Failed to read trace file: " ++ path)
  | some text =>
    match Trace.parse? text with
    | none => .error ("Invalid trace file: " ++ path)
    | some t => .ok t

def readConfig (files : Files.Reader) : Option String → Except String (Config Float)
  | none => .ok Config.default
  | some path =>
    match readText files path with
    | none => .error ("Failed to read config file: " ++ path)
    | some text =>
      match Config.parse text with
      | .error _ => .error ("Invalid config file: " ++ path)
      | .ok c => .ok c

/-! ## Results as text -/

/-- Lines numbered from one. -/
def numbered (number : Nat → String) (reports : List String) : String :=
  reports.zipIdx.foldl
    (fun text (report, i) => text ++ number (i + 1) ++ ". " ++ report ++ "\n") ""

def suggestText (suggestions : List (Suggestion Float)) : String :=
  if suggestions.isEmpty then "No suggestions above the configured thresholds.\n"
  else numbered toString (suggestions.map Suggestion.report)

def pchText (p : Pch.Plan Float) : String :=
  p.report ++ "\n" ++ p.source

/-- A number of at least three columns. -/
def padded (n : Nat) : String :=
  let text := toString n
  String.ofList (List.replicate (3 - text.length) ' ') ++ text

def templatesText (threshold : Float) (hotspots : List (Template.Hotspot Float)) : String :=
  if hotspots.isEmpty then
    "No template instantiations above " ++ Numeral.places 1 threshold ++ " ms.\n"
  else numbered padded (hotspots.map Template.Hotspot.report)

def jsonText (v : Data.Value) : String :=
  Json.pretty v ++ "\n"

def Format.render {β : Type} (f : Format) (text : β → String) (data : β → Data.Value) (x : β) :
    String :=
  match f with
  | .text => text x
  | .json => jsonText (data x)

/-! ## Tasks -/

/-- Without a source tree no header has known symbols, so no split is proposed. -/
def SuggestTask.inspector (files : Files.Reader) (task : SuggestTask) : Symbols.Inspector :=
  match task.sourceRoot with
  | some root => Symbols.SourceFiles.inspector ⟨files, root⟩
  | none => Symbols.StaticTable.empty.inspector

def SuggestTask.suggestions (files : Files.Reader) (trace : String) (task : SuggestTask) :
    Except String (List (Suggestion Float)) := do
  let t ← readTrace files trace
  let config ← readConfig files task.config
  let split := match task.seed with
    | some seed => { config.headerSplit with seed := some seed }
    | none => config.headerSplit
  let advisor : Advisor Float :=
    ⟨Advisor.builtIn (task.inspector files) split, Suggestion.identifier Suggestion.defaultName⟩
  match (advisor.generateAll t config.suggestions Suggestion.firstNumber).result with
  | .ok suggestions => .ok suggestions
  | .error _ => .error "Suggestion generation failed"

def ratioFault (ratio : Float) : String :=
  "Invalid value for --min-ratio: " ++ Numeral.plain ratio ++ " (must be in [0, 1])"

def PchTask.plan (files : Files.Reader) (trace : String) (task : PchTask) :
    Except String (Pch.Plan Float) := do
  let ratio := task.planner.ratio
  if 0.0 ≤ ratio ∧ ratio ≤ 1.0 then
    let t ← readTrace files trace
    .ok (task.planner.plan t t.graph task.current)
  else .error (ratioFault ratio)

def TemplatesTask.hotspots (files : Files.Reader) (trace : String) (task : TemplatesTask) :
    Except String (List (Template.Hotspot Float)) := do
  let t ← readTrace files trace
  .ok (Template.expensive t task.count task.threshold)

def Request.run (files : Files.Reader) (r : Request) : Outcome :=
  Outcome.ofExcept <|
    match r.task with
    | .suggest task =>
      (task.suggestions files r.trace).map
        (r.format.render suggestText (Data.Value.ofList Suggestion.toData))
    | .pch task =>
      (task.plan files r.trace).map (r.format.render pchText Pch.Plan.toData)
    | .templates task =>
      (task.hotspots files r.trace).map
        (r.format.render (templatesText task.threshold)
          (Data.Value.ofList Template.Hotspot.toData))

/-! ## Command lines -/

def Stop.outcome : Stop → Outcome
  | help topic => .printed topic.text
  | version => .printed versionText
  | fault .nothingAsked => .refused Topic.overview.text
  | fault f => .refused ("error: " ++ f.message ++ "\n")

def run (files : Files.Reader) (words : List String) : Outcome :=
  match parse words with
  | .ok request => request.run files
  | .error stop => stop.outcome

/-! ## What a run reads -/

/-- The files that a request names itself. -/
def Request.named (r : Request) : List String :=
  match r.task with
  | .suggest task => r.trace :: task.config.toList
  | _ => [r.trace]

/-- The source files that a request may read: the nodes of the trace's graph, below the source
root. -/
def Request.sources (files : Files.Reader) (r : Request) : List String :=
  match r.task with
  | .suggest ⟨_, some root, _⟩ =>
    match readTrace files r.trace with
    | .ok t => t.graph.nodes.map (Files.join root)
    | .error _ => []
  | _ => []

end BuildAdvisor.CommandLine
