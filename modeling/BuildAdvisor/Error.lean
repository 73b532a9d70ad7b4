/-!
Why an analysis has no result.

* `AnalysisError` — the causes;
* `AnalysisError.kind`, `AnalysisError.message` — the class of a cause and its text.
-/

set_option autoImplicit false

namespace BuildAdvisor

inductive AnalysisError where
  | analysis (reason : String)
  | notFound (what : String)
  | fileNotFound (path : String)
  | fileRead (path : String) (cause : String)
  | parse (path : String) (reason : String)
deriving DecidableEq, Repr

namespace AnalysisError

def kind : AnalysisError → String
  | analysis _ => "ANALYSIS_ERROR"
  | notFound _ => "NOT_FOUND"
  | fileNotFound _ => "FILE_NOT_FOUND"
  | fileRead _ _ => "FILE_READ_ERROR"
  | parse _ _ => "PARSE_ERROR"

def message : AnalysisError → String
  | analysis reason => s!"Analysis failed: {reason}"
  | notFound what => s!"Not found: {what}"
  | fileNotFound path => s!"File not found: {path}"
  | fileRead path cause => s!"Failed to read {path}: {cause}"
  | parse path reason => s!"Failed to parse {path}: {reason}"

end AnalysisError

end BuildAdvisor
