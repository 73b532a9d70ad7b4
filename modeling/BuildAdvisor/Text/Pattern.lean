import BuildAdvisor.Text.Blank
import BuildAdvisor.Text.Word

/-!
Ordered-choice patterns over text.

* `Pattern` — characters, sequence, choice, repetition, capture, and the two tests of a place;
* `Pattern.run` — the first way to match, in order of preference, that lets the rest succeed;
* `Pattern.occurrences` — the matches in a text, leftmost first and without overlap.

A choice prefers its left side.  A greedy repetition prefers one more round, a lazy one prefers
to stop.
-/

set_option autoImplicit false

namespace BuildAdvisor.Text

inductive Pattern where
  | empty
  | char (accepts : Char → Bool)
  | seq (first second : Pattern)
  | choice (left right : Pattern)
  | many (greedy : Bool) (body : Pattern)
  | capture (body : Pattern)
  | lineStart
  | wordEdge

/-- A place in a text: the character before it, the text after it, and how far it lies from
the start.  `captured` is where the latest capture begins and how long it is. -/
structure Place where
  before : Option Char
  rest : List Char
  index : Nat
  captured : Option (List Char × Nat)

namespace Place

def start (text : List Char) : Place := ⟨none, text, 0, none⟩

def atLineStart (p : Place) : Bool :=
  p.before == none || p.before == some '\n'

/-- Exactly one of the two characters around the place belongs to a word. -/
def atWordEdge (p : Place) : Bool :=
  (p.before.map isWord).getD false != (p.rest.head?.map isWord).getD false

def capturedText (p : Place) : Option (List Char) :=
  p.captured.map fun (text, length) => text.take length

end Place

namespace Pattern

/-- Rounds of a repetition, at most `rounds` of them. -/
def repeated {β : Type} (round : Place → (Place → Option β) → Option β) (greedy : Bool) :
    Nat → Place → (Place → Option β) → Option β
  | 0, p, next => next p
  | rounds + 1, p, next =>
    let more (_ : Unit) := round p fun q => repeated round greedy rounds q next
    if greedy then
      match more () with
      | some r => some r
      | none => next p
    else
      match next p with
      | some r => some r
      | none => more ()

/-- Matches from a place on and goes on with `next`; where that fails, with the next way to
match.  Every round of a repetition has to take a character, so as many rounds as the text has
characters are enough. -/
def run {β : Type} (rounds : Nat) : Pattern → Place → (Place → Option β) → Option β
  | empty, p, next => next p
  | char accepts, p, next =>
    match p.rest with
    | [] => none
    | c :: rest =>
      if accepts c then next { p with before := some c, rest, index := p.index + 1 } else none
  | seq first second, p, next => run rounds first p fun q => run rounds second q next
  | choice left right, p, next =>
    match run rounds left p next with
    | some r => some r
    | none => run rounds right p next
  | many greedy body, p, next => repeated (run rounds body) greedy rounds p next
  | capture body, p, next =>
    run rounds body p fun q => next { q with captured := some (p.rest, q.index - p.index) }
  | lineStart, p, next => if p.atLineStart then next p else none
  | wordEdge, p, next => if p.atWordEdge then next p else none

/-! ## Composite patterns -/

def optional (body : Pattern) : Pattern :=
  choice body empty

def some₁ (body : Pattern) : Pattern :=
  seq body (many true body)

def literal (text : String) : Pattern :=
  text.toList.foldr (fun c rest => seq (char (· == c)) rest) empty

def oneOf (texts : List String) : Pattern :=
  match texts with
  | [] => char fun _ => false
  | t :: rest => rest.foldl (fun p t => choice p (literal t)) (literal t)

def inOrder : List Pattern → Pattern
  | [] => empty
  | [p] => p
  | p :: rest => seq p (inOrder rest)

def blanks : Pattern := many true (char isBlank)

def blanks₁ : Pattern := some₁ (char isBlank)

/-- A name: a letter or underscore of ASCII, then word characters. -/
def name : Pattern :=
  seq (char isNameStart) (many true (char isWord))

/-! ## Matches in a text -/

/-- The place behind the match at the head of a text. -/
def matchAt (rounds : Nat) (p : Pattern) (before : Option Char) (text : List Char) :
    Option Place :=
  p.run rounds ⟨before, text, 0, none⟩ some

/-- The matches at or after a place.  `skip` characters belong to the match before. -/
def occurrencesFrom (rounds : Nat) (p : Pattern) (skip : Nat) (before : Option Char) :
    List Char → List Place
  | [] => []
  | c :: rest =>
    match skip with
    | skip + 1 => occurrencesFrom rounds p skip (some c) rest
    | 0 =>
      match p.matchAt rounds before (c :: rest) with
      | some q => q :: occurrencesFrom rounds p (q.index - 1) (some c) rest
      | none => occurrencesFrom rounds p 0 (some c) rest

def occurrences (p : Pattern) (text : List Char) : List Place :=
  occurrencesFrom text.length p 0 none text

/-- The captures of the matches in a text. -/
def captures (p : Pattern) (text : List Char) : List (List Char) :=
  (p.occurrences text).filterMap Place.capturedText

end Pattern

end BuildAdvisor.Text
