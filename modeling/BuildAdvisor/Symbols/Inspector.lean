import BuildAdvisor.Error
import BuildAdvisor.Table

/-!
What an analysis asks about symbols.

* `Inspector` — the symbols that a header declares, and those of them that a file uses;
* `usedAmong` — the same question where the declared symbols are known already.
-/

set_option autoImplicit false

namespace BuildAdvisor.Symbols

structure Inspector where
  declared : String → Except AnalysisError Names
  /-- The symbols of a header that a dependent file uses. -/
  used : (dependent header : String) → Except AnalysisError Names
  /-- Those of the given symbols of a header that a dependent file uses. -/
  usedAmong : (dependent header : String) → Names → Except AnalysisError Names

end BuildAdvisor.Symbols
