import BuildAdvisor.Decimal.Layout
import BuildAdvisor.Data.Decode
import BuildAdvisor.Split.Proposal

/-!
Everything about header splits as data, and the text form of a splitter.

A configuration may leave out any field; the other records need all of theirs.
-/

set_option autoImplicit false

namespace BuildAdvisor.Split

open Data

namespace UsageCache

def ofData? (v : Value) : Option UsageCache := do
  let f ← v.fields? ["header", "symbols", "usage"]
  let header ← f.required "header" Value.text?
  let symbols ← f.required "symbols" Value.names?
  let usage ← f.required "usage" (Value.map? Value.names?)
  some ⟨header, symbols, usage⟩

def toData (c : UsageCache) : Value :=
  .record [("header", .string c.header), ("symbols", .strings c.symbols.toList),
    ("usage", .record (c.usage.toList.map fun (d, used) => (d, .strings used.toList)))]

end UsageCache

/-- Entries of a matrix have thirty-two bits. -/
def matrixOfData? : Value → Option (List (List Nat)) :=
  Value.list? (Value.list? (Value.natural? 32))

def matrixToData (m : List (List Nat)) : Value :=
  .ofList (fun row => .ofList .ofNat row) m

namespace CoUsage

def ofData? (v : Value) : Option CoUsage := do
  let f ← v.fields? ["symbols", "matrix"]
  let symbols ← f.required "symbols" Value.texts?
  let matrix ← f.required "matrix" matrixOfData?
  some ⟨symbols, matrix⟩

def toData (c : CoUsage) : Value :=
  .record [("symbols", .strings c.symbols), ("matrix", matrixToData c.matrix)]

end CoUsage

namespace Clustering

def ofData? (v : Value) : Option (Clustering Float) := do
  let f ← v.fields? ["labels", "num_clusters", "quality_score"]
  let labels ← f.required "labels" (Value.list? Value.count?)
  let clusters ← f.required "num_clusters" Value.count?
  let quality ← f.required "quality_score" Value.double?
  some ⟨labels, clusters, quality⟩

def toData (c : Clustering Float) : Value :=
  .record [("labels", .ofList .ofNat c.labels), ("num_clusters", .ofNat c.clusters),
    ("quality_score", .ofDouble c.quality)]

end Clustering

namespace Part

def ofData? (v : Value) : Option Part := do
  let f ← v.fields? ["name", "symbols"]
  let name ← f.required "name" Value.text?
  let symbols ← f.required "symbols" Value.texts?
  some ⟨name, symbols⟩

def toData (p : Part) : Value :=
  .record [("name", .string p.name), ("symbols", .strings p.symbols)]

end Part

namespace Proposal

def ofData? (v : Value) : Option (Proposal Float) := do
  let f ← v.fields? ["original_header", "proposed_headers", "estimated_benefit_ms",
    "confidence", "rationale"]
  let header ← f.required "original_header" Value.text?
  let parts ← f.required "proposed_headers" (Value.list? Part.ofData?)
  let benefit ← f.required "estimated_benefit_ms" Value.double?
  let confidence ← f.required "confidence" Value.double?
  let rationale ← f.required "rationale" Value.text?
  some ⟨header, parts, benefit, confidence, rationale⟩

def toData (p : Proposal Float) : Value :=
  .record [("original_header", .string p.header), ("proposed_headers", .ofList Part.toData p.parts),
    ("estimated_benefit_ms", .ofDouble p.benefit), ("confidence", .ofDouble p.confidence),
    ("rationale", .string p.rationale)]

end Proposal

namespace Config

def ofData? (v : Value) : Option (Config Float) := do
  let f ← v.fields? ["min_benefit_ms", "benefit_scale_ms", "max_clusters", "seed"]
  let d : Config Float := default
  let minBenefit ← f.optional "min_benefit_ms" d.minBenefit Value.double?
  let benefitScale ← f.optional "benefit_scale_ms" d.benefitScale Value.double?
  let maxClusters ← f.optional "max_clusters" d.maxClusters Value.count?
  let seed ← f.optional "seed" none (Value.nullable? Value.count?)
  some ⟨minBenefit, benefitScale, maxClusters, seed.map UInt64.ofNat⟩

def seedToData : Option UInt64 → Value
  | none => .null
  | some seed => .ofNat seed.toNat

def toData (c : Config Float) : Value :=
  .record [("min_benefit_ms", .ofDouble c.minBenefit), ("benefit_scale_ms", .ofDouble c.benefitScale),
    ("max_clusters", .ofNat c.maxClusters), ("seed", seedToData c.seed)]

/-- The splitter of a configuration, as it appears in a dump. -/
def dump (c : Config Float) : String :=
  let number := Decimal.Layout.dump.render
  let seed := match c.seed with
    | none => "None"
    | some seed => s!"Some({seed.toNat})"
  "HeaderSplitter \x7b config: HeaderSplitConfig \x7b min_benefit_ms: " ++ number c.minBenefit ++
    ", benefit_scale_ms: " ++ number c.benefitScale ++ s!", max_clusters: {c.maxClusters}, seed: " ++
    seed ++ " \x7d, .. \x7d"

end Config

end BuildAdvisor.Split
