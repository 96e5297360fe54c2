import NeighborGraph.Config.Basic
import NeighborGraph.Json.Reader
import NeighborGraph.Json.Writer

/-!
# Settings as text

Settings are written and read as a JSON record with a field for every setting, in the order of
`Config`.  Reading starts from the usual settings, so a text has to mention only the others, and it
ends with `Config.validate`.

A text that is no JSON is a serialization fault; one with a value of the wrong type, an unknown name
or a field that stands twice is a configuration fault.  Whatever stands first in the text decides.
-/

namespace NeighborGraph

/-! ### Names -/

/-- Names of the samplers in text; a random walk has two. -/
def Sampler.codes : List (String × Sampler) :=
  [(uniform.code, uniform), (randomWalk.code, randomWalk), ("RANDOMWALK", randomWalk)]

/-- Names of the metrics in text. -/
def Metric.codes : List (String × Metric) := all.map fun metric => (metric.code, metric)

/-! ### Columns to compare by -/

namespace PropertySpec

/-- The fields of a column to compare by. -/
def fields : List (Json.Field PropertySpec) := [
  { name := "name", required := true, read := fun s => do return { s with name := ← Json.text } },
  { name := "metric", read := fun s => do return { s with metric := ← Json.choice Metric.codes } }]

/-- Reads a column to compare by. -/
def read : Json.Scan PropertySpec := Json.record fields { name := "" }

/-- Writes a column to compare by. -/
def write (s : PropertySpec) : Json.Writer :=
  .record [("name", .text s.name), ("metric", .text s.metric.code)]

end PropertySpec

/-! ### Settings -/

namespace Config

/-- The fields of settings. -/
def fields : List (Json.Field Config) := [
  { name := "top_k", read := fun c => do return { c with topK := ← Json.word } },
  { name := "concurrency", read := fun c => do return { c with concurrency := ← Json.word } },
  { name := "max_iterations", read := fun c => do return { c with maxIterations := ← Json.word } },
  { name := "sample_rate", read := fun c => do return { c with sampleRate := ← Json.real } },
  { name := "delta_threshold",
    read := fun c => do return { c with deltaThreshold := ← Json.real } },
  { name := "random_seed",
    read := fun c => do return { c with randomSeed := ← Json.optional Json.word } },
  { name := "initial_sampler",
    read := fun c => do return { c with initialSampler := ← Json.choice Sampler.codes } },
  { name := "similarity_cutoff",
    read := fun c => do return { c with similarityCutoff := ← Json.real } },
  { name := "perturbation_rate",
    read := fun c => do return { c with perturbationRate := ← Json.real } },
  { name := "random_joins", read := fun c => do return { c with randomJoins := ← Json.word } },
  { name := "min_batch_size", read := fun c => do return { c with minBatchSize := ← Json.word } },
  { name := "node_properties",
    read := fun c => do return { c with nodeProperties := ← Json.list PropertySpec.read } }]

/-- Reads settings, starting from the usual ones. -/
def read : Json.Scan Config := Json.record fields {}

/-- Writes settings. -/
def write (c : Config) : Json.Writer := .record [
  ("top_k", .word c.topK),
  ("concurrency", .word c.concurrency),
  ("max_iterations", .word c.maxIterations),
  ("sample_rate", .real c.sampleRate),
  ("delta_threshold", .real c.deltaThreshold),
  ("random_seed", .optional .word c.randomSeed),
  ("initial_sampler", .text c.initialSampler.code),
  ("similarity_cutoff", .real c.similarityCutoff),
  ("perturbation_rate", .real c.perturbationRate),
  ("random_joins", .word c.randomJoins),
  ("min_batch_size", .word c.minBatchSize),
  ("node_properties", .list (c.nodeProperties.map PropertySpec.write))]

/-- The text of settings. -/
def toText (c : Config) : String := c.write.toText

/-- The fault of a flawed text. -/
def flawed : Json.Flaw → Fault
  | .malformed => .serialization
  | .mistyped => .invalidConfig .mistyped

/-- The settings in a text. -/
def ofText (text : String) : Checked Config := do
  let c ← (Json.parse read text.toList).mapError flawed
  c.validate
  return c

/-- The settings in the bytes of a file. -/
def ofBytes (bytes : List UInt8) : Checked Config :=
  match String.fromUTF8? ⟨bytes.toArray⟩ with
  | none => .error .io
  | some text => ofText text

end Config

end NeighborGraph
