import BuildAdvisor.Toml.Lexeme
import BuildAdvisor.Toml.Section

/-!
TOML documents.

* `value?` — a value, with arrays and inline tables;
* `Document` — the tables read so far, and the header under which keys stand;
* `parse?` — the document of a text, as one table.
-/

set_option autoImplicit false

namespace BuildAdvisor.Toml

open Data (Value)

/-- A date is a record whose one field nobody else uses. -/
def dateValue (text : List Char) : Value :=
  .record [("$date", .string (String.ofList text))]

def Number.toValue : Number → Value
  | .integer (.ofNat n) => .number (.natural n)
  | .integer (.negSucc n) => .number (.negative (n + 1))
  | .float x => .number (.real x)

/-- A value without parts. -/
def scalarValue? (cs : List Char) : Option (Value × List Char) :=
  match cs with
  | '"' :: _ | '\x27' :: _ => (string? cs).map fun (s, rest) => (.string s, rest)
  | 't' :: 'r' :: 'u' :: 'e' :: rest => some (.bool true, rest)
  | 'f' :: 'a' :: 'l' :: 's' :: 'e' :: rest => some (.bool false, rest)
  | cs =>
    match date? cs with
    | some rest => some (dateValue (cs.take (cs.length - rest.length)), rest)
    | none => (number? cs).map fun (n, rest) => (n.toValue, rest)

mutual

/-- `depth` containers lie around the value; every call reads a character or ends. -/
def value? (depth : Nat) : Nat → List Char → Option (Value × List Char)
  | 0, _ => none
  | fuel + 1, cs =>
    match cs with
    | '[' :: rest => if depth + 1 < nestingLimit then items? (depth + 1) [] fuel rest else none
    | '\x7b' :: rest =>
      if depth + 1 < nestingLimit then
        match skipBlanks rest with
        | '\x7d' :: rest => some (.object [], rest)
        | rest => pairs? (depth + 1) Section.empty fuel rest
      else none
    | cs => scalarValue? cs

/-- The items of an array up to its closing bracket, those before in `acc`, last one first. -/
def items? (depth : Nat) (acc : List Value) : Nat → List Char → Option (Value × List Char)
  | 0, _ => none
  | fuel + 1, cs => do
    match ← skipFill? false cs with
    | ']' :: rest => some (.array acc.reverse, rest)
    | cs =>
      let (v, rest) ← value? depth fuel cs
      match ← skipFill? false rest with
      | ',' :: rest => items? depth (v :: acc) fuel rest
      | ']' :: rest => some (.array (v :: acc).reverse, rest)
      | _ => none

/-- The pairs of an inline table up to its closing brace. -/
def pairs? (depth : Nat) (s : Section) : Nat → List Char → Option (Value × List Char)
  | 0, _ => none
  | fuel + 1, cs => do
    let (key, rest) ← key? cs
    let rest ← char? '=' rest
    let (v, rest) ← value? depth fuel (skipBlanks rest)
    let s ← s.insert key v
    match skipBlanks rest with
    | ',' :: rest => pairs? depth s fuel rest
    | '\x7d' :: rest => some (s.toValue, rest)
    | _ => none

end

/-! ## Documents -/

structure Document where
  root : Section
  header : List String

def Document.empty : Document := ⟨Section.empty, []⟩

def Document.add (d : Document) (key : List String) (v : Value) : Option Document := do
  let root ← Section.descend false (Section.insert key v) d.header d.root
  some { d with root }

/-- One header or pair with the rest of its line. -/
def line? (d : Document) (cs : List Char) : Option (Document × List Char) :=
  match cs with
  | '[' :: '[' :: rest => do
    let (header, rest) ← key? rest
    let rest ← lineEnd? (← char? ']' (← char? ']' rest))
    some (⟨← d.root.openListItem header, header⟩, rest)
  | '[' :: rest => do
    let (header, rest) ← key? rest
    let rest ← lineEnd? (← char? ']' rest)
    some (⟨← d.root.openTable header, header⟩, rest)
  | cs => do
    let (key, rest) ← key? cs
    let rest ← char? '=' rest
    let (v, rest) ← value? 0 (rest.length + 1) (skipBlanks rest)
    let rest ← lineEnd? rest
    some (← d.add key v, rest)

/-- Every line takes at least one character, so a text of `fuel` characters has at most as
many. -/
def lines? (d : Document) : Nat → List Char → Option Document
  | fuel, cs =>
    match skipBlanks cs with
    | [] => some d
    | c :: rest =>
      match fuel with
      | 0 => none
      | fuel + 1 =>
        if c = '#' ∨ c = '\n' ∨ c = '\r' then do lines? d fuel (← lineEnd? (c :: rest))
        else do
          let (d, rest) ← line? d (c :: rest)
          lines? d fuel rest

/-- A byte order mark may stand at the start. -/
def withoutMark : List Char → List Char
  | c :: rest => if c.toNat = 0xfeff then rest else c :: rest
  | [] => []

def parse? (text : String) : Option Value := do
  let cs := withoutMark text.toList
  let d ← lines? Document.empty (cs.length + 1) cs
  some d.root.toValue

end BuildAdvisor.Toml
