/-!
Files under a directory.

* `Tree` — files and directories by their path;
* `Tree.read` — the bytes of a file, or why there are none;
* `ReadError` — the ways in which reading fails, with the text of each;
* `Reader` — reading as a function, wherever the files are.

A path is followed name by name: a name that is missing ends the search, a name below a file is
an error of its own, `..` leads to the directory above.  Above the top no names are known.
-/

set_option autoImplicit false

namespace BuildAdvisor.Files

inductive Entry where
  | file (bytes : List UInt8)
  | directory

/-- A directory above an entry is there without an entry of its own. -/
structure Tree where
  entries : List (List String × Entry)

inductive ReadError where
  | notFound
  | isDirectory
  | notDirectory
  | nameTooLong
  | nulInName
deriving DecidableEq, Repr

def ReadError.message : ReadError → String
  | notFound => "No such file or directory (os error 2)"
  | isDirectory => "Is a directory (os error 21)"
  | notDirectory => "Not a directory (os error 20)"
  | nameTooLong => "File name too long (os error 36)"
  | nulInName => "file name contained an unexpected NUL byte"

/-- The bytes of the file at a path. -/
abbrev Reader := String → Except ReadError (List UInt8)

def splitPath (path : String) : List String :=
  (path.toList.splitOn '/').map String.ofList

def isAbsolute (path : String) : Bool :=
  path.toList.head? == some '/'

/-- `path` below `root`, unless it is absolute. -/
def join (root path : String) : String :=
  if isAbsolute path then path
  else if root.isEmpty ∨ root.toList.getLast? = some '/' then root ++ path
  else root ++ "/" ++ path

namespace Tree

def entry? (t : Tree) (names : List String) : Option Entry :=
  match t.entries.lookup names with
  | some e => some e
  | none =>
    if names.isEmpty || t.entries.any fun (path, _) => names.isPrefixOf path then
      some .directory
    else none

/-- What reading comes to outside of the tree: no file is there, but further directories above
are. -/
def outside (names : List String) : ReadError :=
  if names.all fun name => name = "" ∨ name = "." ∨ name = ".." then .isDirectory
  else .notFound

/-- Follows names from `here`, whose own names come last one first. -/
def follow (t : Tree) (here : List String) : List String → Except ReadError (List String)
  | [] => .ok here
  | name :: rest =>
    match t.entry? here.reverse with
    | none => .error .notFound
    | some (.file _) => .error .notDirectory
    | some .directory =>
      if name = "" ∨ name = "." then t.follow here rest
      else if name = ".." then
        match here with
        | [] => .error (outside rest)
        | _ :: above => t.follow above rest
      else if 255 < name.utf8ByteSize then .error .nameTooLong
      else t.follow (name :: here) rest

/-- An absolute path leads out of the tree: nothing but the root directory is known there. -/
def read (t : Tree) : Reader := fun path => do
  if path.toList.contains '\x00' then .error .nulInName
  else if path.isEmpty then .error .notFound
  else if isAbsolute path then .error (outside (splitPath path))
  else
    let here ← t.follow [] (splitPath path)
    match t.entry? here.reverse with
    | none => .error .notFound
    | some .directory => .error .isDirectory
    | some (.file bytes) => .ok bytes

end Tree

end BuildAdvisor.Files
