import BuildAdvisor.Table
import BuildAdvisor.Text.Pattern

/-!
Names that a C or C++ text declares and uses.

* `typePattern`, `aliasPattern`, `functionPattern`, `macroPattern` — how declarations look;
* `declarations` — the names declared in a text;
* `identifierPattern`, `identifiers` — the names that occur in a text.

The patterns look at the text alone: they know neither comments nor scopes.
-/

set_option autoImplicit false

namespace BuildAdvisor.Symbols

open BuildAdvisor.Text BuildAdvisor.Text.Pattern

/-! ## Patterns -/

def isOneOf (cs : String) (c : Char) : Bool :=
  cs.toList.contains c

/-- `class`, `struct`, `union`, `enum` or `enum class`, perhaps after `template <…>`; other words
may stand between it and the name; a brace, colon or semicolon follows the name, perhaps after
`final`. -/
def typePattern : Pattern :=
  inOrder
    [lineStart, blanks,
      optional (inOrder [literal "template", blanks, char (· == '<'),
        many true (char (· != '>')), char (· == '>'), blanks]),
      choice (oneOf ["class", "struct", "union"])
        (seq (literal "enum") (optional (seq blanks₁ (literal "class")))),
      blanks₁, many false (seq (some₁ (char isWord)) blanks₁),
      capture name, blanks, optional (seq (literal "final") blanks), char (isOneOf ":\x7b;")]

/-- `using` with the name before `=`, or `typedef` with the name before the semicolon. -/
def aliasPattern : Pattern :=
  inOrder
    [lineStart, blanks,
      choice
        (inOrder [literal "using", blanks₁, capture name, blanks, char (· == '=')])
        (inOrder [literal "typedef", blanks₁, many false (char (· != ';')), wordEdge,
          capture name, blanks, char (· == ';')])]

/-- A character of the type that stands before a function's name. -/
def isTypeChar (c : Char) : Bool :=
  isWord c || isOneOf ":<>,*&" c || isBlank c

def isSeparator (c : Char) : Bool :=
  isBlank c || isOneOf "*&" c

/-- Specifiers, a type, a name, and parameters in parentheses, up to a semicolon or brace. -/
def functionPattern : Pattern :=
  inOrder
    [lineStart, blanks,
      many true (seq (oneOf ["inline", "static", "extern", "constexpr", "virtual"]) blanks₁),
      char isNameStart, many false (char isTypeChar), char isSeparator,
      capture name, blanks, char (· == '('), many true (char fun c => !isOneOf ";\x7b)" c),
      char (· == ')'), blanks, optional (seq (literal "const") blanks),
      optional (seq (literal "noexcept") blanks), char (isOneOf ";\x7b")]

def macroPattern : Pattern :=
  inOrder [lineStart, blanks, char (· == '#'), blanks, literal "define", blanks₁, capture name]

/-- A name with no word character before or after it. -/
def identifierPattern : Pattern :=
  inOrder [wordEdge, capture name, wordEdge]

/-! ## Declared names -/

/-- Words before parentheses that call no function. -/
def keywords : List String :=
  ["if", "for", "while", "switch", "return", "sizeof", "decltype", "alignof", "static_assert"]

/-- The endings of macros that guard a header against a second inclusion. -/
def guardEndings : List String := ["_H", "_HPP", "_H_"]

def isGuard (name : List Char) : Bool :=
  guardEndings.any fun ending => ending.toList.isSuffixOf name

def isKeyword (name : List Char) : Bool :=
  keywords.any fun word => word.toList == name

/-- All declared names, some perhaps more than once. -/
def declaredNames (text : List Char) : List (List Char) :=
  typePattern.captures text ++ aliasPattern.captures text ++
    (functionPattern.captures text).filter (fun n => !isKeyword n) ++
    (macroPattern.captures text).filter (fun n => !isGuard n)

def declarations (text : List Char) : Names :=
  Names.ofList ((declaredNames text).map String.ofList)

/-! ## Used names -/

def identifiers (text : List Char) : List (List Char) :=
  identifierPattern.captures text

/-- Those of the declared names that occur in the text. -/
def usedAmong (declared : Names) (text : List Char) : Names :=
  Names.ofList (((identifiers text).map String.ofList).filter declared.contains)

end BuildAdvisor.Symbols
