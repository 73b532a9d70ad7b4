import Std.Data.ExtTreeMap
import Std.Data.ExtTreeSet

/-!
Tables and sets of names, in ascending order of their characters.

* `Table` — one entry a name; two tables with the same entries are equal;
* `Names` — a set of names;
* `distinct` — a list without repeats, each element where it first occurs.
-/

set_option autoImplicit false

namespace BuildAdvisor

abbrev Table (β : Type) := Std.ExtTreeMap String β

abbrev Names := Std.ExtTreeSet String

def Names.ofList (xs : List String) : Names :=
  Std.ExtTreeSet.ofList xs

@[simp] theorem Names.mem_ofList {xs : List String} {x : String} :
    x ∈ Names.ofList xs ↔ x ∈ xs := by
  simp [Names.ofList, Std.ExtTreeSet.mem_ofList]

/-- Later repeats are dropped. -/
def distinct (xs : List String) : List String :=
  xs.eraseDups

end BuildAdvisor
