/-!
Identifiers of suggestions.

* `identifier` — a name and a number, written with at least six digits;
* `defaultName` — the name where none is chosen;
* `issue`, `issued` — the identifiers that generators give when they are asked one after another.

Numbers come from one counter, whatever the name, and begin with one.
-/

set_option autoImplicit false

namespace BuildAdvisor.Suggestion

def defaultName : String := "sugg"

def paddedDigits (width n : Nat) : List Char :=
  let digits := Nat.toDigits 10 n
  List.replicate (width - digits.length) '0' ++ digits

def identifier (name : String) (n : Nat) : String :=
  String.ofList (name.toList ++ '-' :: paddedDigits 6 n)

def firstNumber : Nat := 1

/-! ## Generators -/

/-- The identifier that a generator gives, which may have a name of its own, and the counter
afterwards.  A counter that has reached its end begins again with zero. -/
def issue (name? : Option String) (counter : UInt64) : String × UInt64 :=
  (identifier (name?.getD defaultName) counter.toNat, counter + 1)

/-- Some generators share the counter; `calls` says which of them is asked at each time. -/
def issued {ι : Type} (names : ι → Option String) : List ι → UInt64 → List String × UInt64
  | [], counter => ([], counter)
  | generator :: later, counter =>
    let (id, counter) := issue (names generator) counter
    let (ids, counter) := issued names later counter
    (id :: ids, counter)

end BuildAdvisor.Suggestion
