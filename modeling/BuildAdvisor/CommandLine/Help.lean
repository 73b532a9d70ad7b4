import BuildAdvisor.CommandLine.Request

/-!
Help on the command line.

* `Topic.text` — the text on a topic: its purpose, its usage, and its commands or options;
* `versionText` — the name of the program with its version.
-/

set_option autoImplicit false

namespace BuildAdvisor.CommandLine

def programName : String := "buildlens"

def versionText : String := programName ++ " 0.1.0\n"

namespace Topic

def purpose : Topic → String
  | overview => "Build-performance analysis and optimization suggestions for C/C++ build traces"
  | suggest => "Generate ranked optimization suggestions"
  | pch => "Plan changes to the precompiled header"
  | templates => "Report the most expensive template instantiations"
  | help => "Print this message or the help of the given subcommand(s)"

def usage : Topic → String
  | overview => programName ++ " [OPTIONS] <COMMAND>"
  | suggest => programName ++ " suggest [OPTIONS] --trace <FILE>"
  | pch => programName ++ " pch [OPTIONS] --trace <FILE>"
  | templates => programName ++ " templates [OPTIONS] --trace <FILE>"
  | help => programName ++ " help [COMMAND]..."

def traceLine : String × String :=
  ("  -t, --trace <FILE>", "Normalized build trace (JSON)")

/-- The options that every command ends with. -/
def lastLines : List (String × String) :=
  [("      --format <FORMAT>", "Output format: text (default) or json"),
    ("      --debug", "Enable debug tracing output to stderr"),
    ("  -h, --help", "Print help")]

def options : Topic → List (String × String)
  | overview =>
    [("      --debug", "Enable debug tracing output to stderr"),
      ("  -h, --help", "Print help"),
      ("  -V, --version", "Print version")]
  | suggest =>
    [traceLine,
      ("  -c, --config <FILE>", "Analysis configuration (TOML)"),
      ("      --source-root <DIR>",
        "Source tree used to inspect header symbols for split proposals"),
      ("      --seed <N>", "Seed for header split clustering (overrides the config)")] ++ lastLines
  | pch =>
    [traceLine,
      ("      --current <HEADER>...", "Headers currently in the PCH"),
      ("      --top <N>", "Maximum number of headers to add, 10 by default"),
      ("      --min-ratio <RATIO>",
        "Minimum share of units including a header (0-1), 0.3 by default")] ++ lastLines
  | templates =>
    [traceLine,
      ("      --top <N>", "Number of templates to report, 20 by default"),
      ("      --threshold <MS>", "Minimum accumulated time in milliseconds, 0 by default")] ++
    lastLines
  | help => []

def commands : Topic → List (String × String)
  | overview =>
    [suggest, pch, templates, help].map fun t => ("  " ++ t.command?.getD "", t.purpose)
  | _ => []

/-- Lines under a heading, the second column aligned; nothing without lines. -/
def block (heading : String) (lines : List (String × String)) : String :=
  if lines.isEmpty then ""
  else
    let width := lines.foldl (fun n (left, _) => max n left.length) 0
    lines.foldl
      (fun text (left, right) =>
        text ++ left ++ String.ofList (List.replicate (width + 2 - left.length) ' ') ++
          right ++ "\n")
      ("\n" ++ heading ++ ":\n")

protected def text (t : Topic) : String :=
  t.purpose ++ "\n\nUsage: " ++ t.usage ++ "\n" ++ block "Commands" t.commands ++
    block "Options" t.options

end Topic

end BuildAdvisor.CommandLine
