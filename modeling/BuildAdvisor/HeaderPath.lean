/-!
Header paths.

* `isSystemHeader` — headers that belong to the toolchain or the standard library;
* `includeDirective` — the line that includes a header;
* `partName` — the name of a part that a header is divided into.
-/

set_option autoImplicit false

namespace BuildAdvisor.HeaderPath

/-- `needle` occurs as a block of consecutive characters. -/
def occursIn (needle : List Char) : List Char → Bool
  | [] => needle.isEmpty
  | c :: rest => needle.isPrefixOf (c :: rest) || occursIn needle rest

/-- Fragments of the paths under which toolchains and standard libraries are installed. -/
def systemMarkers : List String :=
  ["/usr/include/", "/usr/local/include/", "/usr/lib/gcc/", "/usr/lib/clang/", "/usr/lib/llvm",
    "/include/c++/", "/Library/Developer/CommandLineTools/", "/Applications/Xcode",
    "/Xcode.app/", "/MacOSX.sdk/", "Microsoft Visual Studio", "Windows Kits",
    "\\VC\\Tools\\MSVC\\", "/opt/homebrew/"]

def withSlashes (path : List Char) : List Char :=
  path.map fun c => if c = '\\' then '/' else c

/-- The path is written in angle brackets, as in `<vector>`. -/
def isBracketed (path : List Char) : Bool :=
  path.head? == some '<' && path.getLast? == some '>'

/-- A name without directory and extension, as standard headers have. -/
def isBareName (path : List Char) : Bool :=
  path.all fun c => c != '/' && c != '\\' && c != '.'

/-- A marker counts in the path as written and with slashes for backslashes. -/
def isSystemHeader (path : String) : Bool :=
  let path := path.toList
  isBracketed path ||
    systemMarkers.any (fun marker =>
      occursIn marker.toList path || occursIn marker.toList (withSlashes path)) ||
    isBareName path

/-! ## Include directives -/

/-- The path without the angle brackets at its ends. -/
def unbracketed (path : List Char) : List Char :=
  ((path.dropWhile (· == '<')).reverse.dropWhile (· == '>')).reverse

/-- System headers are included in angle brackets, all others in quotes. -/
def includeDirective (header : String) : String :=
  let bare := String.ofList (unbracketed header.toList)
  if isSystemHeader header then "#include <" ++ bare ++ ">" else "#include \"" ++ bare ++ "\""

/-! ## Parts of a header -/

/-- The path up to its last separator, and the file name after it. -/
def splitDirectory (path : List Char) : List Char × List Char :=
  let (name, directory) := path.reverse.span fun c => c != '/' && c != '\\'
  (directory.reverse, name.reverse)

/-- The stem and the extension with its dot.  A leading dot begins no extension. -/
def splitExtension (name : List Char) : List Char × List Char :=
  match name.reverse.span (· != '.') with
  | (extension, '.' :: stem) =>
    if stem.isEmpty then (name, []) else (stem.reverse, '.' :: extension.reverse)
  | _ => (name, [])

/-- Part `n` keeps directory and extension: `a/b.h` gives `a/b_part1.h`. -/
def partName (header : String) (n : Nat) : String :=
  let (directory, name) := splitDirectory header.toList
  let (stem, extension) := splitExtension name
  String.ofList (directory ++ stem ++ "_part".toList ++ Nat.toDigits 10 n ++ extension)

end BuildAdvisor.HeaderPath
