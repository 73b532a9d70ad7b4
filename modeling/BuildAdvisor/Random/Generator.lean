/-!
Random numbers from a sequence of words.

* `Generator` — a sequence of 32-bit words and how many of them have been used;
* `Generator.uniform` — a number between two bounds, each equally likely;
* `Sampler` — a way to choose distinct positions.
-/

set_option autoImplicit false

namespace BuildAdvisor.Random

structure Generator where
  words : Nat → UInt32
  position : Nat

namespace Generator

/-- The given words, then zeros. -/
def ofList (ws : List UInt32) : Generator :=
  let words := ws.toArray
  ⟨fun i => words[i]?.getD 0, 0⟩

def next (g : Generator) : UInt32 × Generator :=
  (g.words g.position, { g with position := g.position + 1 })

/-- The greatest low half of a product that does not favour some results: as many low halves
are accepted for each of the `range` high halves. -/
def acceptance (range : Nat) : Nat :=
  range * Nat.pow 2 (31 - range.log2) - 1

/-- Draws words until the low half of the product with the range is accepted; the high half
is the result. -/
def draw (range : Nat) : Nat → Generator → Nat × Generator
  | 0, g => (0, g)
  | attempts + 1, g =>
    let (word, g) := g.next
    let product := word.toNat * range
    if product % UInt32.size ≤ acceptance range then (product / UInt32.size, g)
    else draw range attempts g

/-- More draws than any sequence of words that is read to its end could reject. -/
def attempts : Nat := UInt64.size

/-- A number from `low` to `high`, both included. -/
def uniform (low high : Nat) (g : Generator) : Nat × Generator :=
  let (n, g) := draw (high - low + 1) attempts g
  (low + n, g)

end Generator

/-- Chooses `k` positions below `n`, in an order of its own. -/
abbrev Sampler (σ : Type) := (n k : Nat) → σ → List Nat × σ

end BuildAdvisor.Random
