import BuildAdvisor.Data.Decode
import BuildAdvisor.Pch.Effectiveness
import BuildAdvisor.Pch.Plan

/-! Candidates, effectiveness and plans as data; every field is needed. -/

set_option autoImplicit false

namespace BuildAdvisor.Pch

open Data

def Candidate.ofData? (v : Value) : Option (Candidate Float) := do
  let f ← v.fields? ["header", "inclusion_count", "average_compile_time_ms",
    "potential_savings_ms", "benefit_score"]
  let header ← f.required "header" Value.text?
  let inclusionCount ← f.required "inclusion_count" Value.count?
  let cost ← f.required "average_compile_time_ms" Value.double?
  let savings ← f.required "potential_savings_ms" Value.double?
  let benefit ← f.required "benefit_score" Value.double?
  some ⟨header, inclusionCount, cost, savings, benefit⟩

def Candidate.toData (c : Candidate Float) : Value :=
  .record [("header", .string c.header), ("inclusion_count", .ofNat c.inclusionCount),
    ("average_compile_time_ms", .ofDouble c.cost), ("potential_savings_ms", .ofDouble c.savings),
    ("benefit_score", .ofDouble c.benefit)]

def Effectiveness.ofData? (v : Value) : Option (Effectiveness Float) := do
  let f ← v.fields? ["pch_file", "pch_build_time_ms", "users", "hit_rate",
    "total_time_saved_ms", "average_time_saved_per_file_ms"]
  let file ← f.required "pch_file" Value.text?
  let buildTime ← f.required "pch_build_time_ms" Value.double?
  let users ← f.required "users" Value.count?
  let hitRate ← f.required "hit_rate" Value.double?
  let totalSaved ← f.required "total_time_saved_ms" Value.double?
  let savedPerFile ← f.required "average_time_saved_per_file_ms" Value.double?
  some ⟨file, buildTime, users, hitRate, totalSaved, savedPerFile⟩

def Effectiveness.toData (e : Effectiveness Float) : Value :=
  .record [("pch_file", .string e.file), ("pch_build_time_ms", .ofDouble e.buildTime),
    ("users", .ofNat e.users), ("hit_rate", .ofDouble e.hitRate),
    ("total_time_saved_ms", .ofDouble e.totalSaved),
    ("average_time_saved_per_file_ms", .ofDouble e.savedPerFile)]

def Plan.ofData? (v : Value) : Option (Plan Float) := do
  let f ← v.fields? ["headers_to_add", "headers_to_remove", "resulting_headers", "pch_source",
    "estimated_savings_ms"]
  let added ← f.required "headers_to_add" Value.texts?
  let removed ← f.required "headers_to_remove" Value.texts?
  let resulting ← f.required "resulting_headers" Value.texts?
  let source ← f.required "pch_source" Value.text?
  let savings ← f.required "estimated_savings_ms" Value.double?
  some ⟨added, removed, resulting, source, savings⟩

def Plan.toData (p : Plan Float) : Value :=
  .record [("headers_to_add", .strings p.added), ("headers_to_remove", .strings p.removed),
    ("resulting_headers", .strings p.resulting), ("pch_source", .string p.source),
    ("estimated_savings_ms", .ofDouble p.savings)]

end BuildAdvisor.Pch
