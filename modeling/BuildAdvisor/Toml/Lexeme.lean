import BuildAdvisor.Decimal.Read
import BuildAdvisor.Text.Hex

/-!
The smallest parts of a TOML text.

* `lineEnd?`, `skipFill?` — blanks, comments and line ends;
* `string?` — the four forms of a string;
* `key?` — a key, with its parts where it is dotted;
* `number?`, `date?` — numbers, and dates and times.

Each reads at the head of a text and gives what follows.
-/

set_option autoImplicit false

namespace BuildAdvisor.Toml

/-! ## Blanks and comments -/

def isBlank (c : Char) : Bool :=
  c == ' ' || c == '\t'

/-- Tab, and everything that is not a control character. -/
def isText (c : Char) : Bool :=
  c == '\t' || decide (0x20 ≤ c.toNat ∧ c.toNat ≠ 0x7f)

def skipBlanks (cs : List Char) : List Char :=
  cs.dropWhile isBlank

def newline? : List Char → Option (List Char)
  | '\n' :: rest => some rest
  | '\r' :: '\n' :: rest => some rest
  | _ => none

/-- What follows a comment, at the end of its line. -/
def skipComment (cs : List Char) : List Char :=
  match cs with
  | '#' :: rest => rest.dropWhile isText
  | cs => cs

/-- The rest of a line: blanks, perhaps a comment, and the end of the line or text. -/
def lineEnd? (cs : List Char) : Option (List Char) :=
  match skipComment (skipBlanks cs) with
  | [] => some []
  | cs => newline? cs

/-- Blanks, line ends and comments between the items of an array. -/
def skipFill? (inComment : Bool) : List Char → Option (List Char)
  | [] => some []
  | '\n' :: rest => skipFill? false rest
  | '\r' :: '\n' :: rest => skipFill? false rest
  | c :: rest =>
    if inComment then if isText c then skipFill? true rest else none
    else if isBlank c then skipFill? false rest
    else if c = '#' then skipFill? true rest
    else some (c :: rest)

/-! ## Strings -/

/-- The character with a number, if there is one. -/
def scalar? (n : Nat) : Option Char :=
  if n < 0xd800 ∨ (0xdfff < n ∧ n < 0x110000) then some (Char.ofNat n) else none

def escaped? : Char → Option Char
  | '"' => some '"'
  | '\\' => some '\\'
  | 'b' => some '\x08'
  | 't' => some '\t'
  | 'n' => some '\n'
  | 'f' => some '\x0c'
  | 'r' => some '\r'
  | _ => none

/-- Between double quotes, on one line; `acc` holds the characters so far, last one first. -/
def basicBody? (acc : List Char) : List Char → Option (List Char × List Char)
  | '"' :: rest => some (acc.reverse, rest)
  | '\\' :: 'u' :: a :: b :: c :: d :: rest => do
    let n ← Text.hexUnit? a b c d
    basicBody? ((← scalar? n) :: acc) rest
  | '\\' :: 'U' :: a :: b :: c :: d :: e :: f :: g :: h :: rest => do
    let high ← Text.hexUnit? a b c d
    let low ← Text.hexUnit? e f g h
    basicBody? ((← scalar? (high * 0x10000 + low)) :: acc) rest
  | '\\' :: c :: rest => do basicBody? ((← escaped? c) :: acc) rest
  | c :: rest => if isText c then basicBody? (c :: acc) rest else none
  | [] => none

/-- Between single quotes, on one line. -/
def literalBody? (acc : List Char) : List Char → Option (List Char × List Char)
  | '\x27' :: rest => some (acc.reverse, rest)
  | c :: rest => if isText c then literalBody? (c :: acc) rest else none
  | [] => none

/-- A backslash here would end its line. -/
def endsLine (cs : List Char) : Bool :=
  (newline? (skipBlanks cs)).isSome

/-- Between three double quotes, of which two more may stand before the closing ones.  A
backslash at the end of a line skips to the next character that is not blank. -/
def basicLines? (skipping : Bool) (acc : List Char) :
    List Char → Option (List Char × List Char)
  | '\n' :: rest => basicLines? skipping (if skipping then acc else '\n' :: acc) rest
  | '\r' :: '\n' :: rest => basicLines? skipping (if skipping then acc else '\n' :: acc) rest
  | '"' :: '"' :: '"' :: '"' :: '"' :: rest => some (('"' :: '"' :: acc).reverse, rest)
  | '"' :: '"' :: '"' :: '"' :: rest => some (('"' :: acc).reverse, rest)
  | '"' :: '"' :: '"' :: rest => some (acc.reverse, rest)
  | '\\' :: 'u' :: a :: b :: c :: d :: rest => do
    let n ← Text.hexUnit? a b c d
    basicLines? false ((← scalar? n) :: acc) rest
  | '\\' :: 'U' :: a :: b :: c :: d :: e :: f :: g :: h :: rest => do
    let high ← Text.hexUnit? a b c d
    let low ← Text.hexUnit? e f g h
    basicLines? false ((← scalar? (high * 0x10000 + low)) :: acc) rest
  | '\\' :: c :: rest =>
    if endsLine (c :: rest) then
      if c = '\r' then basicLines? true acc (rest.drop 1)
      else basicLines? true acc rest
    else do basicLines? false ((← escaped? c) :: acc) rest
  | c :: rest =>
    if skipping && isBlank c then basicLines? true acc rest
    else if isText c then basicLines? false (c :: acc) rest
    else none
  | [] => none
termination_by cs => cs.length

/-- Between three single quotes. -/
def literalLines? (acc : List Char) : List Char → Option (List Char × List Char)
  | '\r' :: '\n' :: rest => literalLines? ('\n' :: acc) rest
  | '\x27' :: '\x27' :: '\x27' :: '\x27' :: '\x27' :: rest =>
    some (('\x27' :: '\x27' :: acc).reverse, rest)
  | '\x27' :: '\x27' :: '\x27' :: '\x27' :: rest => some (('\x27' :: acc).reverse, rest)
  | '\x27' :: '\x27' :: '\x27' :: rest => some (acc.reverse, rest)
  | c :: rest => if isText c || c == '\n' then literalLines? (c :: acc) rest else none
  | [] => none

/-- A line end right after the opening quotes is no part of the string. -/
def afterOpening (cs : List Char) : List Char :=
  (newline? cs).getD cs

def string? (cs : List Char) : Option (String × List Char) := do
  let (body, rest) ← match cs with
    | '"' :: '"' :: '"' :: rest => basicLines? false [] (afterOpening rest)
    | '\x27' :: '\x27' :: '\x27' :: rest => literalLines? [] (afterOpening rest)
    | '"' :: rest => basicBody? [] rest
    | '\x27' :: rest => literalBody? [] rest
    | _ => none
  some (String.ofList body, rest)

/-! ## Keys -/

def isBareKey (c : Char) : Bool :=
  c.isAlphanum || c == '_' || c == '-'

def simpleKey? (cs : List Char) : Option (String × List Char) :=
  match cs with
  | '"' :: rest => (basicBody? [] rest).map fun (body, rest) => (String.ofList body, rest)
  | '\x27' :: rest => (literalBody? [] rest).map fun (body, rest) => (String.ofList body, rest)
  | cs =>
    match cs.span isBareKey with
    | ([], _) => none
    | (name, rest) => some (String.ofList name, rest)

/-- The parts of a dotted key, blanks around each; `fuel` bounds their number. -/
def keyParts? : Nat → List Char → Option (List String × List Char)
  | 0, _ => none
  | fuel + 1, cs => do
    let (part, rest) ← simpleKey? (skipBlanks cs)
    match skipBlanks rest with
    | '.' :: rest =>
      let (parts, rest) ← keyParts? fuel rest
      some (part :: parts, rest)
    | rest => some ([part], rest)

/-- Containers and key parts may be nested less deep than this. -/
def nestingLimit : Nat := 80

def key? (cs : List Char) : Option (List String × List Char) :=
  keyParts? (nestingLimit - 1) cs

/-! ## Numbers -/

/-- Digits behind a first one, each perhaps after an underscore. -/
def moreDigits? (isDigit : Char → Bool) (acc : List Char) :
    List Char → Option (List Char × List Char)
  | '_' :: c :: rest => if isDigit c then moreDigits? isDigit (c :: acc) rest else none
  | ['_'] => none
  | c :: rest =>
    if isDigit c then moreDigits? isDigit (c :: acc) rest else some (acc.reverse, c :: rest)
  | [] => some (acc.reverse, [])

def digits? (isDigit : Char → Bool) : List Char → Option (List Char × List Char)
  | c :: rest => if isDigit c then moreDigits? isDigit [c] rest else none
  | [] => none

/-- A whole part: a zero alone, or digits that begin with none. -/
def whole? : List Char → Option (List Char × List Char)
  | '0' :: rest => some (['0'], rest)
  | cs => digits? Char.isDigit cs

inductive Number where
  | integer (n : Int)
  | float (x : Float)

/-- Whole numbers have sixty-four bits with a sign. -/
def integerInRange? (n : Int) : Option Number :=
  if Int64.minValue.toInt ≤ n ∧ n ≤ Int64.maxValue.toInt then some (.integer n) else none

def digitsInBase? (base : Nat) (cs : List Char) : Option (Number × List Char) := do
  let isDigit (c : Char) : Bool := ((Text.hexValue? c).map fun d => decide (d < base)).getD false
  let (ds, rest) ← digits? isDigit cs
  let n := ds.foldl (fun n c => n * base + (Text.hexValue? c).getD 0) 0
  some (← integerInRange? n, rest)

def fraction? : List Char → Option (Option (List Char) × List Char)
  | '.' :: rest => (digits? Char.isDigit rest).map fun (ds, rest) => (some ds, rest)
  | cs => some (none, cs)

def exponent? : List Char → Option (Option (Bool × List Char) × List Char)
  | c :: rest =>
    if c = 'e' ∨ c = 'E' then
      let (negative, rest) := Decimal.sign rest
      (digits? Char.isDigit rest).map fun (ds, rest) => (some (negative, ds), rest)
    else some (none, c :: rest)
  | [] => some (none, [])

/-- A decimal number.  A float must not be so large that it is infinite, unless it is
negative. -/
def decimal? (cs : List Char) : Option (Number × List Char) := do
  let (negative, rest) := Decimal.sign cs
  let (whole, rest) ← whole? rest
  let (fraction, rest) ← fraction? rest
  let (exponent, rest) ← exponent? rest
  let literal : Decimal.Literal := ⟨whole, fraction, exponent⟩
  if literal.isWhole then
    let n : Int := Decimal.natOfDigits whole
    some (← integerInRange? (if negative then -n else n), rest)
  else
    let x := literal.toDouble negative
    if x.isFinite || negative then some (.float x, rest) else none

/-- Infinity and the undefined value, perhaps with a sign. -/
def special? (cs : List Char) : Option (Number × List Char) :=
  match Decimal.sign cs with
  | (negative, 'i' :: 'n' :: 'f' :: rest) => some (.float (Decimal.signed negative (1.0 / 0.0)), rest)
  | (negative, 'n' :: 'a' :: 'n' :: rest) => some (.float (Decimal.signed negative (0.0 / 0.0)), rest)
  | _ => none

def number? (cs : List Char) : Option (Number × List Char) :=
  match cs with
  | '0' :: 'x' :: rest => digitsInBase? 16 rest
  | '0' :: 'o' :: rest => digitsInBase? 8 rest
  | '0' :: 'b' :: rest => digitsInBase? 2 rest
  | cs =>
    match special? cs with
    | some found => some found
    | none => decimal? cs

/-! ## Dates and times -/

/-- Exactly `count` digits, and their value. -/
def fixedDigits? (count : Nat) (cs : List Char) : Option (Nat × List Char) :=
  let ds := cs.take count
  if ds.length = count ∧ ds.all Char.isDigit then
    some (Decimal.natOfDigits ds, cs.drop count)
  else none

def char? (c : Char) : List Char → Option (List Char)
  | d :: rest => if d = c then some rest else none
  | [] => none

def isLeapYear (y : Nat) : Bool :=
  y % 4 == 0 && (y % 100 != 0 || y % 400 == 0)

def daysInMonth (year month : Nat) : Nat :=
  if month = 2 then if isLeapYear year then 29 else 28
  else if month = 4 ∨ month = 6 ∨ month = 9 ∨ month = 11 then 30
  else 31

def calendarDate? (cs : List Char) : Option (List Char) := do
  let (year, cs) ← fixedDigits? 4 cs
  let (month, cs) ← fixedDigits? 2 (← char? '-' cs)
  let (day, cs) ← fixedDigits? 2 (← char? '-' cs)
  if 1 ≤ month ∧ month ≤ 12 ∧ 1 ≤ day ∧ day ≤ daysInMonth year month then some cs else none

/-- Hours, minutes and seconds, perhaps with a fraction; a leap second is allowed. -/
def clockTime? (cs : List Char) : Option (List Char) := do
  let (hour, cs) ← fixedDigits? 2 cs
  let (minute, cs) ← fixedDigits? 2 (← char? ':' cs)
  let (second, cs) ← fixedDigits? 2 (← char? ':' cs)
  if hour < 24 ∧ minute < 60 ∧ second ≤ 60 then
    match cs with
    | '.' :: rest =>
      match rest.span Char.isDigit with
      | ([], _) => some cs
      | (_, rest) => some rest
    | cs => some cs
  else none

/-- What follows the offset of a time, which may be missing. -/
def skipOffset? (cs : List Char) : Option (List Char) :=
  match cs with
  | c :: rest =>
    if c = 'Z' ∨ c = 'z' then some rest
    else if c = '+' ∨ c = '-' then do
      let (hour, cs) ← fixedDigits? 2 rest
      let (minute, cs) ← fixedDigits? 2 (← char? ':' cs)
      if hour < 24 ∧ minute < 60 then some cs else none
    else some (c :: rest)
  | [] => some []

/-- A date, perhaps with a time and its offset, or a time alone. -/
def date? (cs : List Char) : Option (List Char) :=
  match calendarDate? cs with
  | some rest =>
    match rest with
    | c :: later =>
      if c = 'T' ∨ c = 't' ∨ c = ' ' then
        match clockTime? later with
        | some later => skipOffset? later
        | none => some rest
      else some rest
    | [] => some []
  | none => clockTime? cs

end BuildAdvisor.Toml
