import BuildAdvisor.Error
import BuildAdvisor.Suggestion.Basic

/-!
Ranking and filtering of suggestions.

* `rank` — by score, best first, equal scores in the order given;
* `Thresholds` — the least confidence and savings that count;
* `select` — the best suggestions that meet the thresholds;
* `selectBest` — the same, and the first of them.
-/

set_option autoImplicit false

namespace BuildAdvisor.Suggestion

variable {α : Type} [Scalar α]

/-- Where a score stands among scores that may be undefined: above all numbers if a factor is
undefined, below all numbers if only the product is.

The total order of doubles goes by the sign of what is undefined.  Every undefined factor is taken
as positive here, with its sign passed on to the product, and every other undefined product as
negative, which is the convention of one kind of machine. -/
def tier (s : Suggestion α) : Nat :=
  if Scalar.isNaN s.score then
    if Scalar.isNaN s.confidence || Scalar.isNaN s.savings then 2 else 0
  else 1

/-- `s` comes before `t`, or they tie. -/
def ranksBefore (s t : Suggestion α) : Bool :=
  decide (t.tier < s.tier) || (s.tier == t.tier && Scalar.precedes t.score s.score)

def rank (suggestions : List (Suggestion α)) : List (Suggestion α) :=
  suggestions.mergeSort ranksBefore

structure Thresholds (α : Type) where
  confidence : α
  savings : α

/-- Both bounds are inclusive. -/
def meets (t : Thresholds α) (s : Suggestion α) : Bool :=
  decide (t.confidence ≤ s.confidence) && decide (t.savings ≤ s.savings)

def select (t : Thresholds α) (count : Nat) (suggestions : List (Suggestion α)) :
    List (Suggestion α) :=
  ((rank suggestions).filter (meets t)).take count

def noneMeets [Numeral α] (t : Thresholds α) : AnalysisError :=
  .analysis ("no suggestion meets confidence >= " ++ Numeral.plain t.confidence ++
    " and savings >= " ++ Numeral.plain t.savings ++ " ms")

/-- The list is selected from in any case, also where nothing remains to be the best. -/
def selectBest [Numeral α] (t : Thresholds α) (count : Nat)
    (suggestions : List (Suggestion α)) :
    Except AnalysisError (Suggestion α) × List (Suggestion α) :=
  match select t count suggestions with
  | [] => (.error (noneMeets t), [])
  | best :: rest => (.ok best, best :: rest)

end BuildAdvisor.Suggestion
