import BuildAdvisor.CommandLine.Request

/-!
Options of a command and how words give them.

* `Parameter` — an option: its names, and its effect on the settings;
* `Word` — the shape of a word: an option by its long name, letters, the mark `--`, or plain;
* `Reading` — the settings so far, and the option whose values are being read;
* `Reading.read` — reads options until a word that is neither an option nor a value of one.

The values of an option take effect when the next option begins or the words end.  An unknown
option is reported before the values that wait.
-/

set_option autoImplicit false

namespace BuildAdvisor.CommandLine

/-- An option ends the reading, is a flag, takes one value, or takes one or more. -/
inductive Effect (σ : Type) where
  | stop (s : Stop)
  | flag (set : σ → σ)
  | value (set : String → σ → Except Stop σ)
  | values (add : String → σ → Except Stop σ)

structure Parameter (σ : Type) where
  long : String
  short : Option Char
  effect : Effect σ

namespace Parameter

variable {σ : Type}

def takesValue (p : Parameter σ) : Bool :=
  match p.effect with
  | .value _ | .values _ => true
  | _ => false

/-- All but an option with many values may be given once only. -/
def isRepeatable (p : Parameter σ) : Bool :=
  match p.effect with
  | .values _ => true
  | _ => false

/-- Whether the word after `count` values would be one more. -/
def takesMore (p : Parameter σ) (count : Nat) : Bool :=
  match p.effect with
  | .value _ => count == 0
  | .values _ => true
  | _ => false

end Parameter

/-! ## Words -/

inductive Word where
  | escape
  | long (name : String) (value : Option String)
  | letters (cs : List Char)
  | plain

/-- A dash alone is a plain word. -/
def Word.ofText (text : String) : Word :=
  match text.toList with
  | ['-', '-'] => .escape
  | '-' :: '-' :: rest =>
    match rest.span (· != '=') with
    | (name, '=' :: value) => .long (String.ofList name) (some (String.ofList value))
    | (name, _) => .long (String.ofList name) none
  | '-' :: c :: rest => .letters (c :: rest)
  | _ => .plain

/-- The value that follows a letter in its word, perhaps after an equals sign. -/
def joinedValue? : List Char → Option String
  | [] => none
  | '=' :: rest => some (String.ofList rest)
  | rest => some (String.ofList rest)

/-! ## Readings -/

/-- `given` holds the long names of the options that have taken effect. -/
structure Reading (σ : Type) where
  settings : σ
  given : List String
  waiting : Option (Parameter σ × List String)

namespace Reading

variable {σ : Type}

def start (settings : σ) : Reading σ := ⟨settings, [], none⟩

/-- An option takes effect with its values. -/
def apply (r : Reading σ) (p : Parameter σ) (values : List String) :
    Except Stop (Reading σ) :=
  if !p.isRepeatable && r.given.contains p.long then .error (.fault .repeatedArgument)
  else do
    let settings ← match p.effect with
      | .stop s => .error s
      | .flag set => .ok (set r.settings)
      | .value set | .values set => values.foldlM (fun settings v => set v settings) r.settings
    .ok ⟨settings, p.long :: r.given, none⟩

/-- The option that waits, if one does, takes effect. -/
def settle (r : Reading σ) : Except Stop (Reading σ) :=
  match r.waiting with
  | none => .ok r
  | some (_, []) => .error (.fault .badValue)
  | some (p, values) => r.apply p values

/-- An option begins, with a value if one is joined to it. -/
def give (r : Reading σ) (p : Parameter σ) (joined : Option String) :
    Except Stop (Reading σ) := do
  let r ← r.settle
  if p.takesValue then
    match joined with
    | some v => r.apply p [v]
    | none => .ok { r with waiting := some (p, []) }
  else r.apply p []

def giveLong (ps : List (Parameter σ)) (r : Reading σ) (name : String)
    (joined : Option String) : Except Stop (Reading σ) :=
  match ps.find? fun p => p.long == name with
  | none => .error (.fault .unknownArgument)
  | some p =>
    if joined.isSome && !p.takesValue then .error (.fault .unwantedValue) else r.give p joined

/-- Letters after one dash: flags, up to an option whose value is the rest of the word. -/
def giveLetters (ps : List (Parameter σ)) (r : Reading σ) : List Char → Except Stop (Reading σ)
  | [] => .ok r
  | c :: rest =>
    match ps.find? fun p => p.short == some c with
    | none => .error (.fault .unknownArgument)
    | some p =>
      if p.takesValue then r.give p (joinedValue? rest)
      else do giveLetters ps (← r.give p none) rest

/-- The reading with one more value, if an option waits for it. -/
def take? (r : Reading σ) (word : String) : Option (Reading σ) :=
  match r.waiting with
  | some (p, values) =>
    if p.takesMore values.length then
      some { r with waiting := some (p, values ++ [word]) }
    else none
  | none => none

/-- Reads options with their values; gives also the words that are left. -/
def read (ps : List (Parameter σ)) : Reading σ → List String →
    Except Stop (Reading σ × List String)
  | r, [] => .ok (r, [])
  | r, word :: rest =>
    match Word.ofText word with
    | .long name joined => do read ps (← giveLong ps r name joined) rest
    | .letters cs => do read ps (← giveLetters ps r cs) rest
    | .escape => .ok (r, word :: rest)
    | .plain =>
      match r.take? word with
      | some r => read ps r rest
      | none => .ok (r, word :: rest)

end Reading

end BuildAdvisor.CommandLine
