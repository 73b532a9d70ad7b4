import BuildAdvisor.Split.Affinity
import BuildAdvisor.Split.KMeans

/-!
Clusters of symbols.

* `Clustering` — a label for each symbol, with a measure of quality;
* `qualityOf` — the mean share of a label, divided again by the number of labels;
* `clusterOver`, `cluster` — k-means over the affinities of a co-usage matrix.
-/

set_option autoImplicit false

namespace BuildAdvisor.Split

/-- `clusters` is one more than the greatest label, whether or not every label is used. -/
structure Clustering (α : Type) where
  labels : List Nat
  clusters : Nat
  quality : α

def clusterCount (labels : List Nat) : Nat :=
  (labels.map (· + 1)).foldl max 0

variable {α : Type} [Scalar α]

def qualityOf (labels : List Nat) (clusters : Nat) : α :=
  if labels.isEmpty ∨ clusters = 0 then 1.0
  else
    let total : α := (labels.length : α)
    let shares := (List.range clusters).map fun l => ((labels.count l : Nat) : α) / total
    Scalar.sum shares / (clusters : α) / (clusters : α)

def maxRounds : Nat := 100

def Clustering.ofLabels (labels : List Nat) : Clustering α :=
  let clusters := clusterCount labels
  ⟨labels, clusters, qualityOf labels clusters⟩

/-- Affinities and distances are numbers of `κ`, the quality is one of `α`. -/
def clusterOver (κ : Type) [Scalar κ] [Exponential κ] {σ : Type} (sample : Random.Sampler σ)
    (matrix : List (List Nat)) (k : Nat) (s : σ) : Clustering α × σ :=
  let (partition, s) := kmeans sample (affinity (α := κ) matrix) k maxRounds s
  (Clustering.ofLabels partition.labels, s)

def cluster [Exponential α] {σ : Type} (sample : Random.Sampler σ) (matrix : List (List Nat))
    (k : Nat) (s : σ) : Clustering α × σ :=
  clusterOver α sample matrix k s

end BuildAdvisor.Split
