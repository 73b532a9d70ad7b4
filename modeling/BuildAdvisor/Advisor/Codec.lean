import BuildAdvisor.Advisor.Options
import BuildAdvisor.Data.Decode

/-! Options as data; a field that is left out keeps the value of a preset. -/

set_option autoImplicit false

namespace BuildAdvisor.Advisor.Options

open Data

def fieldNames : List String :=
  ["enable_forward_declarations", "enable_header_splits", "enable_pch", "enable_pimpl",
    "enable_template_instantiations", "min_confidence", "min_time_savings_ms",
    "max_suggestions", "header_split_fanout_threshold", "header_split_min_symbols", "pch_top_n",
    "pch_min_inclusion_ratio", "current_pch_headers", "template_min_instantiations"]

/-- The fields laid over those of `d`. -/
def ofFields? (d : Options Float) (f : Fields) : Option (Options Float) := do
  let forwardDeclarations ←
    f.optional "enable_forward_declarations" d.forwardDeclarations Value.flag?
  let headerSplits ← f.optional "enable_header_splits" d.headerSplits Value.flag?
  let pch ← f.optional "enable_pch" d.pch Value.flag?
  let pimpl ← f.optional "enable_pimpl" d.pimpl Value.flag?
  let templateInstantiations ←
    f.optional "enable_template_instantiations" d.templateInstantiations Value.flag?
  let minConfidence ← f.optional "min_confidence" d.minConfidence Value.double?
  let minSavings ← f.optional "min_time_savings_ms" d.minSavings Value.double?
  let maxSuggestions ← f.optional "max_suggestions" d.maxSuggestions Value.count?
  let splitFanout ← f.optional "header_split_fanout_threshold" d.splitFanout Value.count?
  let splitMinSymbols ← f.optional "header_split_min_symbols" d.splitMinSymbols Value.count?
  let pchCount ← f.optional "pch_top_n" d.pchCount Value.count?
  let pchRatio ← f.optional "pch_min_inclusion_ratio" d.pchRatio Value.double?
  let currentPch ← f.optional "current_pch_headers" d.currentPch Value.texts?
  let templateMinCount ←
    f.optional "template_min_instantiations" d.templateMinCount Value.count?
  some
    { forwardDeclarations, headerSplits, pch, pimpl, templateInstantiations, minConfidence,
      minSavings, maxSuggestions, splitFanout, splitMinSymbols, pchCount, pchRatio, currentPch,
      templateMinCount }

def ofData? (v : Value) : Option (Options Float) :=
  v.fields? fieldNames >>= ofFields? default

def toData (o : Options Float) : Value :=
  .record
    [("enable_forward_declarations", .bool o.forwardDeclarations),
      ("enable_header_splits", .bool o.headerSplits), ("enable_pch", .bool o.pch),
      ("enable_pimpl", .bool o.pimpl),
      ("enable_template_instantiations", .bool o.templateInstantiations),
      ("min_confidence", .ofDouble o.minConfidence),
      ("min_time_savings_ms", .ofDouble o.minSavings),
      ("max_suggestions", .ofNat o.maxSuggestions),
      ("header_split_fanout_threshold", .ofNat o.splitFanout),
      ("header_split_min_symbols", .ofNat o.splitMinSymbols), ("pch_top_n", .ofNat o.pchCount),
      ("pch_min_inclusion_ratio", .ofDouble o.pchRatio),
      ("current_pch_headers", .strings o.currentPch),
      ("template_min_instantiations", .ofNat o.templateMinCount)]

end BuildAdvisor.Advisor.Options
