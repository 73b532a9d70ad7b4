import BuildAdvisor.Random.Generator
import BuildAdvisor.Scalar

/-!
Clustering by k-means.

* `squaredDistance`, `nearest` — the centroid to which a point belongs;
* `assign`, `update` — the two halves of a round;
* `refine` — rounds until nothing changes, at most a given number;
* `kmeans` — from distinct rows chosen at random as the first centroids.

Of equally near centroids the first one counts.  A centroid without points stays where it is.
-/

set_option autoImplicit false

namespace BuildAdvisor.Split

variable {α : Type} [Scalar α]

/-! ## Assignment -/

/-- Rows of different lengths are compared as far as both go. -/
def squaredDistance (a b : List α) : α :=
  Scalar.sum (List.zipWith (fun x y => let d := x - y; d * d) a b)

/-- Nearer than the best so far; without a best so far, at any finite distance. -/
def isNearer (distance : α) : Option α → Bool
  | none => Scalar.isFinite distance
  | some best => decide (distance < best)

/-- `index` is the number of the first centroid of the list. -/
def nearestFrom (point : List α) (best : Nat) (bestDistance : Option α) (index : Nat) :
    List (List α) → Nat
  | [] => best
  | centroid :: rest =>
    let distance := squaredDistance point centroid
    if isNearer distance bestDistance then
      nearestFrom point index (some distance) (index + 1) rest
    else nearestFrom point best bestDistance (index + 1) rest

/-- The number of the nearest centroid, zero if none is at a finite distance. -/
def nearest (centroids : List (List α)) (point : List α) : Nat :=
  nearestFrom point 0 none 0 centroids

def assign (centroids points : List (List α)) : List Nat :=
  points.map (nearest centroids)

/-! ## Centroids -/

/-- The sum keeps its own length. -/
def addRow : List α → List α → List α
  | a :: sum, x :: row => (a + x) :: addRow sum row
  | sum, _ => sum

def members (points : List (List α)) (labels : List Nat) (label : Nat) : List (List α) :=
  ((points.zip labels).filter fun (_, l) => l == label).map Prod.fst

/-- The mean of some rows in each of `width` columns. -/
def mean (width : Nat) (rows : List (List α)) : List α :=
  (rows.foldl addRow (List.replicate width 0.0)).map fun x => x / (rows.length : α)

def moveCentroid (width : Nat) (rows : List (List α)) (centroid : List α) : List α :=
  if rows.isEmpty then centroid else mean width rows

def update (width : Nat) (points : List (List α)) (labels : List Nat)
    (centroids : List (List α)) : List (List α) :=
  centroids.mapIdx fun label centroid =>
    moveCentroid width (members points labels label) centroid

/-! ## Rounds -/

/-- Centroids with the label of each point.  `settled` says that the last round changed no
label. -/
structure Partition (α : Type) where
  centroids : List (List α)
  labels : List Nat
  settled : Bool

/-- The first round never ends the refinement. -/
def refine (width : Nat) (points : List (List α)) (isFirst : Bool) :
    Nat → List (List α) → List Nat → Partition α
  | 0, centroids, labels => ⟨centroids, labels, false⟩
  | rounds + 1, centroids, labels =>
    let next := assign centroids points
    if !isFirst && next == labels then ⟨centroids, next, true⟩
    else refine width points false rounds (update width points next centroids) next

/-- The number of clusters is brought between one and the number of points. -/
def clampClusters (k rows : Nat) : Nat :=
  max 1 (min k rows)

/-- All points start with label zero; new centroids are as wide as the first point. -/
def refineFrom (points : List (List α)) (rounds : Nat) (seeds : List Nat) : Partition α :=
  let centroids := seeds.map fun i => points.getD i []
  refine ((points.headD []).length) points true rounds centroids (points.map fun _ => 0)

def kmeans {σ : Type} (sample : Random.Sampler σ) (points : List (List α)) (k rounds : Nat)
    (s : σ) : Partition α × σ :=
  if points.isEmpty then (⟨[], [], false⟩, s)
  else
    let (seeds, s) := sample points.length (clampClusters k points.length) s
    (refineFrom points rounds seeds, s)

end BuildAdvisor.Split
