import BuildAdvisor.Advisor.Codec
import BuildAdvisor.Split.Codec
import BuildAdvisor.Toml.Parser

/-!
The configuration of an analysis.

* `Config` — options of the advisor and parameters of header splits;
* `Config.fault?` — the first thing that is wrong, with its table;
* `Config.parse` — the configuration in a text, checked.
-/

set_option autoImplicit false

namespace BuildAdvisor

structure Config (α : Type) where
  suggestions : Advisor.Options α
  headerSplit : Split.Config α

namespace Config

variable {α : Type} [Scalar α]

def default : Config α := ⟨Advisor.Options.default, Split.Config.default⟩

inductive Fault (α : Type) where
  | syntaxOrType
  | suggestions (f : Advisor.Options.Fault α)
  | headerSplit (f : Split.Config.Fault α)

def Fault.message [Numeral α] : Fault α → String
  | syntaxOrType => "Failed to parse TOML analysis config"
  | suggestions f => "[suggestions] " ++ f.message
  | headerSplit f => "[header_split] " ++ f.message

def fault? (c : Config α) : Option (Fault α) :=
  match c.suggestions.fault?, c.headerSplit.fault? with
  | some f, _ => some (.suggestions f)
  | none, some f => some (.headerSplit f)
  | none, none => none

/-! ## Text -/

open Data

def ofData? (v : Value) : Option (Config Float) := do
  let f ← v.fields? ["suggestions", "header_split"]
  let suggestions ← f.optional "suggestions" Advisor.Options.default Advisor.Options.ofData?
  let headerSplit ← f.optional "header_split" Split.Config.default Split.Config.ofData?
  some ⟨suggestions, headerSplit⟩

def toData (c : Config Float) : Value :=
  .record [("suggestions", c.suggestions.toData), ("header_split", c.headerSplit.toData)]

/-- A missing table or field keeps its default. -/
def parse (text : String) : Except (Fault Float) (Config Float) :=
  match Toml.parse? text >>= ofData? with
  | none => .error .syntaxOrType
  | some c =>
    match c.fault? with
    | some f => .error f
    | none => .ok c

end Config

end BuildAdvisor
