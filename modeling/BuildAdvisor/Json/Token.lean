import BuildAdvisor.Decimal.Read
import BuildAdvisor.Data.Value
import BuildAdvisor.Text.Hex

/-!
The tokens of a JSON text.

* `Token` — brackets, separators, literals, numbers and strings;
* `numberToken?`, `stringToken?` — a number or string at the head of a text, with what follows;
* `tokens?` — the tokens of a text, blanks left out, or `none` where no token begins.

A number or string that stands for no value is still a token, so that a reader that skips it
does not fail.
-/

set_option autoImplicit false

namespace BuildAdvisor.Json

open Data

inductive Token where
  | openArray
  | closeArray
  | openObject
  | closeObject
  | comma
  | colon
  | null
  | bool (b : Bool)
  | number (n : Option Number)
  | string (s : Option String)

/-- Space, tab, line feed and carriage return. -/
def isBlank (c : Char) : Bool :=
  c == ' ' || c == '\t' || c == '\n' || c == '\r'

/-! ## Numbers -/

/-- Whole numbers of sixty-four bits stay whole, all others are rounded to a double.  Minus zero
is a double. -/
def numberOfLiteral? (negative : Bool) (l : Decimal.Literal) : Option Number :=
  let whole := Decimal.natOfDigits l.whole
  if l.isWhole ∧ !negative ∧ whole < UInt64.size then some (.natural whole)
  else if l.isWhole ∧ negative ∧ 0 < whole ∧ whole ≤ UInt64.size / 2 then some (.negative whole)
  else
    let x := l.toDouble negative
    if x.isFinite then some (.real x) else none

/-- No zero comes before another digit of the whole part. -/
def noLeadingZero : List Char → Bool
  | '0' :: _ :: _ => false
  | _ => true

def numberToken? (cs : List Char) : Option (Token × List Char) := do
  let (negative, unsigned) := match cs with
    | '-' :: rest => (true, rest)
    | _ => (false, cs)
  let (literal, rest) ← Decimal.Literal.scan? unsigned
  if noLeadingZero literal.whole then
    some (.number (numberOfLiteral? negative literal), rest)
  else none

/-! ## Strings -/

/-- A piece of a string: a character, or half of a surrogate pair. -/
inductive Piece where
  | char (c : Char)
  | high (unit : Nat)
  | low (unit : Nat)

def Piece.ofUnit (n : Nat) : Piece :=
  if 0xd800 ≤ n ∧ n < 0xdc00 then .high n
  else if 0xdc00 ≤ n ∧ n < 0xe000 then .low n
  else .char (Char.ofNat n)

/-- The character that a letter after a backslash stands for. -/
def escaped? : Char → Option Char
  | '"' => some '"'
  | '\\' => some '\\'
  | '/' => some '/'
  | 'b' => some '\x08'
  | 'f' => some '\x0c'
  | 'n' => some '\n'
  | 'r' => some '\r'
  | 't' => some '\t'
  | _ => none

/-- The pieces up to the closing quote, last one first, put before `acc`.  A halved pair is
only a pair where its halves are written as two escapes in a row. -/
def stringPieces? (acc : List Piece) : List Char → Option (List Piece × List Char)
  | '"' :: rest => some (acc, rest)
  | '\\' :: 'u' :: a :: b :: c :: d :: rest => do
    let n ← Text.hexUnit? a b c d
    stringPieces? (Piece.ofUnit n :: acc) rest
  | '\\' :: c :: rest => do
    let e ← escaped? c
    stringPieces? (.char e :: acc) rest
  | c :: rest => if c.toNat < 0x20 then none else stringPieces? (.char c :: acc) rest
  | [] => none

/-- Joins the halves of surrogate pairs; the pieces come last one first. -/
def joinPieces? (acc : List Char) : List Piece → Option (List Char)
  | [] => some acc
  | .char c :: rest => joinPieces? (c :: acc) rest
  | .low l :: .high h :: rest =>
    joinPieces? (Char.ofNat (0x10000 + (h - 0xd800) * 0x400 + (l - 0xdc00)) :: acc) rest
  | _ => none

/-- The string whose opening quote has been read. -/
def stringToken? (cs : List Char) : Option (Token × List Char) := do
  let (pieces, rest) ← stringPieces? [] cs
  some (.string ((joinPieces? [] pieces).map String.ofList), rest)

/-! ## Texts -/

/-- The first token of a text that begins with no blank. -/
def token? : List Char → Option (Token × List Char)
  | '[' :: rest => some (.openArray, rest)
  | ']' :: rest => some (.closeArray, rest)
  | '{' :: rest => some (.openObject, rest)
  | '}' :: rest => some (.closeObject, rest)
  | ',' :: rest => some (.comma, rest)
  | ':' :: rest => some (.colon, rest)
  | '"' :: rest => stringToken? rest
  | 'n' :: 'u' :: 'l' :: 'l' :: rest => some (.null, rest)
  | 't' :: 'r' :: 'u' :: 'e' :: rest => some (.bool true, rest)
  | 'f' :: 'a' :: 'l' :: 's' :: 'e' :: rest => some (.bool false, rest)
  | cs => numberToken? cs

/-- A token takes at least one character, so a text of `fuel` characters has at most that many;
the tokens before the text are in `acc`, last one first. -/
def tokensFrom? (acc : List Token) : Nat → List Char → Option (List Token)
  | fuel, cs =>
    match cs.dropWhile isBlank with
    | [] => some acc.reverse
    | c :: rest =>
      match fuel with
      | 0 => none
      | fuel + 1 =>
        match token? (c :: rest) with
        | none => none
        | some (t, rest) => tokensFrom? (t :: acc) fuel rest

def tokens? (cs : List Char) : Option (List Token) :=
  tokensFrom? [] cs.length cs

end BuildAdvisor.Json
