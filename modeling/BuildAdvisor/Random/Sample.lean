import BuildAdvisor.Random.Generator

/-!
Distinct positions chosen at random.

* `sampleInPlace` — the first places of a shuffled list of all positions;
* `sampleFloyd` — one new position for each of the last `k` bounds, then shuffled;
* `Generator.sample` — whichever of the two does less work.
-/

set_option autoImplicit false

namespace BuildAdvisor.Random

/-- Exchanges two places of a list. -/
def swapAt (xs : List Nat) (i j : Nat) : List Nat :=
  match xs[i]?, xs[j]? with
  | some x, some y => (xs.set i y).set j x
  | _, _ => xs

/-- Fills the places from `i` on, `count` of them, each with an element at or behind it. -/
def shuffleForward (n : Nat) : Nat → Nat → List Nat → Generator → List Nat × Generator
  | 0, _, xs, g => (xs, g)
  | count + 1, i, xs, g =>
    let (j, g) := g.uniform i (n - 1)
    shuffleForward n count (i + 1) (swapAt xs i j) g

def sampleInPlace (n k : Nat) (g : Generator) : List Nat × Generator :=
  let (xs, g) := shuffleForward n k 0 (List.range n) g
  (xs.take k, g)

/-- Fills the places `i`, …, 1, each with an element at or before it. -/
def shuffleBackward : Nat → List Nat → Generator → List Nat × Generator
  | 0, xs, g => (xs, g)
  | i + 1, xs, g =>
    let (j, g) := g.uniform 0 (i + 1)
    shuffleBackward i (swapAt xs (i + 1) j) g

/-- Below this number of positions the new bound takes the place of the position it repeats,
which shuffles as it goes. -/
def smallSample : Nat := 50

/-- Adds a position drawn up to the bound `j`, or `j` itself if the drawn one is there
already; `count` bounds follow each other from `j` on. -/
def floydSteps (inOrder : Bool) : Nat → Nat → List Nat → Generator → List Nat × Generator
  | 0, _, xs, g => (xs, g)
  | count + 1, j, xs, g =>
    let (t, g) := g.uniform 0 j
    let xs :=
      match xs.idxOf? t with
      | none => xs ++ [t]
      | some place => if inOrder then xs.insertIdx place j else xs ++ [j]
    floydSteps inOrder count (j + 1) xs g

def sampleFloyd (n k : Nat) (g : Generator) : List Nat × Generator :=
  let inOrder := decide (k < smallSample)
  let (xs, g) := floydSteps inOrder k (n - k) [] g
  if inOrder then (xs, g) else shuffleBackward (k - 1) xs g

/-- In single precision, the number of positions up to which shuffling all of them is less work
than drawing `k` of them one by one. -/
def crossover (k : Nat) : Float32 :=
  let k := Float32.ofNat k
  (10.0 + 1.6 * k) * k

/-- A large sample is always worth a shuffle of all positions. -/
def prefersInPlace (n k : Nat) : Bool :=
  if k < 163 then decide (11 < k) && decide (Float32.ofNat n < crossover k) else true

def Generator.sample : Sampler Generator := fun n k g =>
  if prefersInPlace n k then sampleInPlace n k g else sampleFloyd n k g

end BuildAdvisor.Random
