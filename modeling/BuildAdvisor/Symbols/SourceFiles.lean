import BuildAdvisor.Files.Tree
import BuildAdvisor.Symbols.Declarations
import BuildAdvisor.Symbols.Inspector
import BuildAdvisor.Text.Utf8

/-!
Symbols from source files.

* `SourceFiles` — the files below a root directory;
* `SourceFiles.read` — the text of a file;
* `SourceFiles.inspector` — its answers, by scanning the texts.
-/

set_option autoImplicit false

namespace BuildAdvisor.Symbols

structure SourceFiles where
  files : Files.Reader
  root : String

namespace SourceFiles

def read (s : SourceFiles) (path : String) : Except AnalysisError (List Char) :=
  let path := Files.join s.root path
  match s.files path with
  | .error .notFound => .error (.fileNotFound path)
  | .error e => .error (.fileRead path e.message)
  | .ok bytes =>
    match Utf8.decode bytes with
    | .error defect => .error (.parse path defect.message)
    | .ok text => .ok text

def declared (s : SourceFiles) (header : String) : Except AnalysisError Names :=
  (s.read header).map declarations

/-- The header itself is not read. -/
def usedAmong (s : SourceFiles) (dependent : String) (known : Names) :
    Except AnalysisError Names :=
  (s.read dependent).map (Symbols.usedAmong known)

def used (s : SourceFiles) (dependent header : String) : Except AnalysisError Names := do
  let known ← s.declared header
  s.usedAmong dependent known

def inspector (s : SourceFiles) : Inspector :=
  ⟨s.declared, s.used, fun dependent _ known => s.usedAmong dependent known⟩

end SourceFiles

end BuildAdvisor.Symbols
