/-!
Quoted text as it appears in a dump.

* `quoted` — the text between double quotes, with quotes, backslashes and control characters
  escaped.
-/

set_option autoImplicit false

namespace BuildAdvisor.Text

def isControl (c : Char) : Bool :=
  let n := c.toNat
  decide (n < 0x20) || decide (0x7f ≤ n ∧ n < 0xa0)

def escapeQuoted (c : Char) : List Char :=
  match c with
  | '"' => ['\\', '"']
  | '\\' => ['\\', '\\']
  | '\n' => ['\\', 'n']
  | '\r' => ['\\', 'r']
  | '\t' => ['\\', 't']
  | '\x00' => ['\\', '0']
  | c =>
    if isControl c then ['\\', 'u', '\x7b'] ++ Nat.toDigits 16 c.toNat ++ ['\x7d'] else [c]

def quoted (s : String) : String :=
  String.ofList ('"' :: s.toList.flatMap escapeQuoted ++ ['"'])

end BuildAdvisor.Text
