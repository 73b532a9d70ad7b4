import BuildAdvisor.CommandLine.Run

/-!
The program: reads the files that a command line needs, runs it over them, and prints.
-/

set_option autoImplicit false

namespace BuildAdvisor

def readError : IO.Error → Files.ReadError
  | .inappropriateType .. => .isDirectory
  | .resourceExhausted .. => .nameTooLong
  | _ => .notFound

def readFile (path : String) : IO (Except Files.ReadError (List UInt8)) := do
  try
    let bytes ← IO.FS.readBinFile path
    return .ok bytes.toList
  catch e =>
    return .error (readError e)

/-- The files at some paths as they are now. -/
def snapshot (paths : List String) : IO (List (String × Except Files.ReadError (List UInt8))) :=
  paths.mapM fun path => do
    let found ← readFile path
    return (path, found)

def readerOf (found : List (String × Except Files.ReadError (List UInt8))) : Files.Reader :=
  fun path => (found.lookup path).getD (.error .notFound)

def filesOf (words : List String) : IO Files.Reader := do
  match CommandLine.parse words with
  | .error _ => return readerOf []
  | .ok request =>
    let named ← snapshot request.named
    let sources ← snapshot (request.sources (readerOf named))
    return readerOf (named ++ sources)

end BuildAdvisor

def main (words : List String) : IO UInt32 := do
  let outcome := BuildAdvisor.CommandLine.run (← BuildAdvisor.filesOf words) words
  match outcome with
  | .printed text => IO.print text
  | .failed message => IO.eprintln ("Error: " ++ message)
  | .refused message => IO.eprint message
  return UInt32.ofNat outcome.exitCode
