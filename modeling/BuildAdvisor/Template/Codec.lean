import BuildAdvisor.Data.Decode
import BuildAdvisor.Template.Hotspot

/-! Template hotspots as data; every field is needed. -/

set_option autoImplicit false

namespace BuildAdvisor.Template.Hotspot

open Data

def ofData? (v : Value) : Option (Hotspot Float) := do
  let f ← v.fields? ["name", "time_ms", "instantiation_count", "call_stack", "first_unit"]
  let name ← f.required "name" Value.text?
  let time ← f.required "time_ms" Value.double?
  let count ← f.required "instantiation_count" Value.count?
  let stack ← f.required "call_stack" Value.texts?
  let firstUnit ← f.required "first_unit" Value.text?
  some ⟨name, time, count, stack, firstUnit⟩

def members (h : Hotspot Float) : List (String × Value) :=
  [("name", .string h.name), ("time_ms", .ofDouble h.time),
    ("instantiation_count", .ofNat h.count), ("call_stack", .strings h.stack),
    ("first_unit", .string h.firstUnit)]

def toData (h : Hotspot Float) : Value :=
  .record h.members

end BuildAdvisor.Template.Hotspot
