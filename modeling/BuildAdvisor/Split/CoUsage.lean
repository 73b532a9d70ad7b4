import BuildAdvisor.Table

/-!
How often symbols are used together.

* `UsageCache` — the symbols of a header and those that each dependent uses;
* `CoUsage` — a square matrix over the symbols;
* `UsageCache.coUsage` — for each two symbols, the number of dependents that use both.
-/

set_option autoImplicit false

namespace BuildAdvisor.Split

structure UsageCache where
  header : String
  symbols : Names
  usage : Table Names

namespace UsageCache

def empty (header : String) (symbols : Names) : UsageCache := ⟨header, symbols, ∅⟩

def record (c : UsageCache) (dependent : String) (used : Names) : UsageCache :=
  { c with usage := c.usage.insert dependent used }

/-- Nothing is known about a dependent that was never recorded. -/
def usedBy? (c : UsageCache) (dependent : String) : Option Names :=
  c.usage[dependent]?

end UsageCache

structure CoUsage where
  symbols : List String
  matrix : List (List Nat)

def CoUsage.size (c : CoUsage) : Nat :=
  c.symbols.length

/-- Adds one to every entry whose row and column are both marked. -/
def countPairs (marks : List Bool) (matrix : List (List Nat)) : List (List Nat) :=
  matrix.zipWith (fun row inRow =>
    if inRow then row.zipWith (fun n inColumn => if inColumn then n + 1 else n) marks else row)
    marks

/-- Symbols that the header does not declare have no row and are left out. -/
def UsageCache.coUsage (c : UsageCache) : CoUsage :=
  let symbols := c.symbols.toList
  let zeros := symbols.map fun _ => symbols.map fun _ => 0
  let matrix := c.usage.values.foldl
    (fun matrix used => countPairs (symbols.map used.contains) matrix) zeros
  ⟨symbols, matrix⟩

end BuildAdvisor.Split
