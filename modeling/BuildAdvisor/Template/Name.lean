import BuildAdvisor.Text.Blank

/-!
Names of template instantiations.

* `compact` — the name without blanks around angle brackets and commas;
* `argumentList?` — the text between the first `<` and its `>`, with what stands around it;
* `splitArguments` — the arguments of a list, at commas outside of brackets;
* `normalize` — the name with every argument that is not from the standard library replaced by
  `T`, so that instances of one template share a name;
* `isStandard` — names of the standard library and the compiler.
-/

set_option autoImplicit false

namespace BuildAdvisor.Template

open BuildAdvisor.Text (isBlank trim trimStart)

/-! ## Blanks -/

def isPunctuation (c : Char) : Bool :=
  c == '<' || c == '>' || c == ','

/-- `out` is the text written so far, last character first; `after` says that it ends in
punctuation.  Blanks before punctuation are taken back, blanks after it are not written. -/
def compactFrom (after : Bool) (out : List Char) : List Char → List Char
  | [] => out.reverse
  | c :: rest =>
    if isPunctuation c then compactFrom true (c :: out.dropWhile isBlank) rest
    else if isBlank c then compactFrom after (if after then out else c :: out) rest
    else compactFrom false (c :: out) rest

def compact (name : List Char) : List Char :=
  compactFrom false [] (trim name)

/-! ## Arguments -/

/-- The text up to the `>` that closes a list, and the text after it.  Only angle brackets are
counted: `depth` of them are open within the list. -/
def closeList? (depth : Nat) (inner : List Char) : List Char → Option (List Char × List Char)
  | [] => none
  | c :: rest =>
    if c = '>' then
      match depth with
      | 0 => some (inner.reverse, rest)
      | depth + 1 => closeList? depth (c :: inner) rest
    else if c = '<' then closeList? (depth + 1) (c :: inner) rest
    else closeList? depth (c :: inner) rest

structure ArgumentList where
  before : List Char
  inner : List Char
  after : List Char

def argumentList? (name : List Char) : Option ArgumentList :=
  match name.span (· != '<') with
  | (_, []) => none
  | (before, _ :: rest) =>
    (closeList? 0 [] rest).map fun (inner, after) => ⟨before, inner, after⟩

/-- What a character adds to the number of open brackets of any kind. -/
def nesting (c : Char) : Int :=
  if c = '<' ∨ c = '(' ∨ c = '[' then 1
  else if c = '>' ∨ c = ')' ∨ c = ']' then -1
  else 0

/-- Splits at the commas where the count of open brackets is zero; `piece` is the argument so far,
last character first.  The count has 32 bits with a sign and wraps around. -/
def splitFrom (depth : Int32) (piece : List Char) : List Char → List (List Char)
  | [] => [piece.reverse]
  | c :: rest =>
    if c = ',' ∧ depth = 0 then piece.reverse :: splitFrom 0 [] rest
    else splitFrom (depth + Int32.ofInt (nesting c)) (c :: piece) rest

def splitArguments (inner : List Char) : List (List Char) :=
  splitFrom 0 [] inner

def joinArguments (arguments : List (List Char)) : List Char :=
  [','].intercalate arguments

/-! ## Normal names -/

def standardNamespace : List Char := "std::".toList

def isStandardArgument (argument : List Char) : Bool :=
  standardNamespace.isPrefixOf argument

def placeholder : List Char := ['T']

def generalize (argument : List Char) : List Char :=
  if isStandardArgument argument then argument else placeholder

/-- Only the first argument list is generalized; a name without one, or with an empty one, is
only compacted. -/
def normalizeChars (name : List Char) : List Char :=
  let name := compact name
  match argumentList? name with
  | none => name
  | some l =>
    if l.inner.isEmpty then name
    else
      l.before ++ '<' :: joinArguments ((splitArguments l.inner).map generalize) ++
        '>' :: l.after

def normalize (name : String) : String :=
  String.ofList (normalizeChars name.toList)

def isStandard (name : String) : Bool :=
  let name := trimStart name.toList
  standardNamespace.isPrefixOf name || "__".toList.isPrefixOf name

end BuildAdvisor.Template
