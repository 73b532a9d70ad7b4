import BuildAdvisor.CommandLine.Parameter
import BuildAdvisor.CommandLine.Value
import BuildAdvisor.Scalar.Double

/-!
Command lines read as requests.

* `Draft` — the settings of a command while its options are read;
* `suggestParameters`, `pchParameters`, `templatesParameters` — the options of each command;
* `parse` — the request of a command line.

Options before the command belong to the program; only `--debug` may stand on either side.
-/

set_option autoImplicit false

namespace BuildAdvisor.CommandLine

/-- What all commands share, and what belongs to one of them. -/
structure Draft (τ : Type) where
  debug : Bool
  trace : Option String
  format : Format
  own : τ

def Draft.start {τ : Type} (own : τ) : Draft τ := ⟨false, none, .text, own⟩

/-! ## Options -/

def sharedParameters {τ : Type} (topic : Topic) : List (Parameter (Draft τ)) :=
  [⟨"trace", some 't', .value fun w d => do
      let file ← path w
      .ok { d with trace := some file }⟩,
    ⟨"format", none, .value fun w d => do
      let chosen ← CommandLine.format w
      .ok { d with format := chosen }⟩,
    ⟨"debug", none, .flag fun d => { d with debug := true }⟩,
    ⟨"help", some 'h', .stop (.help topic)⟩]

/-- An option of one command changes that command's own settings. -/
def ownValue {τ β : Type} (read : String → Except Stop β) (set : β → τ → τ) :
    Effect (Draft τ) :=
  .value fun w d => do
    let x ← read w
    .ok { d with own := set x d.own }

def ownValues {τ : Type} (add : String → τ → τ) : Effect (Draft τ) :=
  .values fun w d => .ok { d with own := add w d.own }

def suggestParameters : List (Parameter (Draft SuggestTask)) :=
  sharedParameters .suggest ++
  [⟨"config", some 'c', ownValue path fun x t => { t with config := some x }⟩,
    ⟨"source-root", none, ownValue path fun x t => { t with sourceRoot := some x }⟩,
    ⟨"seed", none, ownValue (number natural?) fun x t =>
      { t with seed := some (UInt64.ofNat x) }⟩]

def PchTask.addCurrent (header : String) (t : PchTask) : PchTask :=
  { t with current := t.current ++ [header] }

def pchParameters : List (Parameter (Draft PchTask)) :=
  sharedParameters .pch ++
  [⟨"current", none, ownValues PchTask.addCurrent⟩,
    ⟨"top", none, ownValue (number natural?) fun x t => ⟨t.current, ⟨x, t.planner.ratio⟩⟩⟩,
    ⟨"min-ratio", none, ownValue (number double?) fun x t => ⟨t.current, ⟨t.planner.count, x⟩⟩⟩]

def templatesParameters : List (Parameter (Draft TemplatesTask)) :=
  sharedParameters .templates ++
  [⟨"top", none, ownValue (number natural?) fun x t => { t with count := x }⟩,
    ⟨"threshold", none, ownValue (number double?) fun x t => { t with threshold := x }⟩]

def programParameters : List (Parameter Bool) :=
  [⟨"debug", none, .flag fun _ => true⟩,
    ⟨"help", some 'h', .stop (.help .overview)⟩,
    ⟨"version", some 'V', .stop .version⟩]

/-! ## Commands -/

/-- The words after a command; they hold nothing but its options. -/
def parseCommand {τ : Type} (debug : Bool) (own : τ) (ps : List (Parameter (Draft τ)))
    (task : τ → Task) (words : List String) : Except Stop Request := do
  let (r, rest) ← (Reading.start (Draft.start own)).read ps words
  if rest ≠ [] ∧ rest ≠ ["--"] then .error (.fault .unknownArgument)
  else
    let r ← r.settle
    let d := r.settings
    match d.trace with
    | none => .error (.fault .missingArgument)
    | some trace => .ok ⟨debug || d.debug, trace, d.format, task d.own⟩

/-- The words after `help`: at most one command, which has no commands of its own. -/
def helpOn : List String → Stop
  | [] => .help .overview
  | [name] =>
    match Topic.ofCommand? name with
    | some topic => .help topic
    | none => .fault .unknownCommand
  | _ => .fault .unknownCommand

def suggestStart : SuggestTask := ⟨none, none, none⟩

def pchStart : PchTask := ⟨[], Pch.Planner.default⟩

def templatesStart : TemplatesTask := ⟨20, 0.0⟩

def parse (words : List String) : Except Stop Request := do
  let (r, rest) ← (Reading.start false).read programParameters words
  let debug := r.settings
  let atEnd : Fault := if r.given.isEmpty then .nothingAsked else .missingCommand
  match rest with
  | [] | ["--"] => .error (.fault atEnd)
  | "--" :: name :: _ =>
    .error (.fault (if (Topic.ofCommand? name).isSome then .unknownArgument else .unknownCommand))
  | name :: rest =>
    match Topic.ofCommand? name with
    | some .suggest => parseCommand debug suggestStart suggestParameters .suggest rest
    | some .pch => parseCommand debug pchStart pchParameters .pch rest
    | some .templates => parseCommand debug templatesStart templatesParameters .templates rest
    | some .help => .error (helpOn rest)
    | _ => .error (.fault .unknownCommand)

end BuildAdvisor.CommandLine
