import BuildAdvisor.Pch.Plan

/-!
What a command line asks for.

* `Request` — one of three tasks over a trace, and how to write its result;
* `Topic` — what a reader may ask help on;
* `Fault` — what is wrong with a command line;
* `Stop` — why no task is run: help or the version is asked for, or something is wrong.
-/

set_option autoImplicit false

namespace BuildAdvisor.CommandLine

inductive Format where
  | text
  | json
deriving DecidableEq, Repr

def Format.name : Format → String
  | text => "text"
  | json => "json"

def Format.ofName? (name : String) : Option Format :=
  [text, json].find? fun f => f.name == name

/-- Suggestions for the build; a seed here goes before the one of the configuration. -/
structure SuggestTask where
  config : Option String
  sourceRoot : Option String
  seed : Option UInt64

structure PchTask where
  current : List String
  planner : Pch.Planner Float

structure TemplatesTask where
  count : Nat
  threshold : Float

inductive Task where
  | suggest (t : SuggestTask)
  | pch (t : PchTask)
  | templates (t : TemplatesTask)

structure Request where
  debug : Bool
  trace : String
  format : Format
  task : Task

inductive Topic where
  | overview
  | suggest
  | pch
  | templates
  | help
deriving DecidableEq, Repr

/-- The word that names a command. -/
def Topic.command? : Topic → Option String
  | overview => none
  | suggest => some "suggest"
  | pch => some "pch"
  | templates => some "templates"
  | help => some "help"

def Topic.ofCommand? (name : String) : Option Topic :=
  [suggest, pch, templates, help].find? fun t => t.command? == some name

inductive Fault where
  | nothingAsked
  | missingCommand
  | unknownCommand
  | unknownArgument
  | missingArgument
  | repeatedArgument
  | unwantedValue
  | badValue
  | badNumber
deriving DecidableEq, Repr

def Fault.message : Fault → String
  | nothingAsked | missingCommand => "a command is required"
  | unknownCommand => "there is no such command"
  | unknownArgument => "an argument is not known here"
  | missingArgument => "the option --trace is required"
  | repeatedArgument => "an option is given more than once"
  | unwantedValue => "an option that takes no value has one"
  | badValue => "the value of an option is missing or not one of its choices"
  | badNumber => "the value of an option is no number, or out of range"

inductive Stop where
  | help (topic : Topic)
  | version
  | fault (f : Fault)
deriving DecidableEq, Repr

end BuildAdvisor.CommandLine
