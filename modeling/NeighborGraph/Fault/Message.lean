import NeighborGraph.Fault
import NeighborGraph.Decimal.Layout

/-!
# Messages — the wording of every fault

`Fault.message` is the text a caller reads: the family of the fault in words, then its cause with
the figures in place.  `Fault.family` names the family alone.
-/

namespace NeighborGraph

/-- Checksums are written with eight hexadecimal digits. -/
def hexWord (word : UInt32) : String :=
  let digits := Nat.toDigits 16 word.toNat
  String.ofList (List.replicate (8 - digits.length) '0' ++ digits)

/-- Wording of an encoding fault. -/
def EncodingFault.message : EncodingFault → String
  | truncatedVarLong start => s!"truncated var-long starting at offset {start}"
  | varLongOverflow start => s!"var-long overflow at offset {start}"
  | limitBeyondBuffer limit size => s!"limit {limit} exceeds buffer of {size} bytes"
  | unterminatedVarLong start => s!"unterminated var-long at offset {start}"
  | outputExhausted slots left => s!"output of {slots} values exhausted with {left} bytes left"
  | streamEnded expected found => s!"expected {expected} values, stream ended after {found}"
  | wordPastEnd offset size => s!"8-byte read at {offset} past end of {size} bytes"
  | bitWidth bits => s!"bit width {bits} > 64"
  | bitReadPastEnd bits position size =>
    s!"bit read of {bits} bits at {position} past end of {size} byte block"
  | missingWidth block => s!"missing header byte {block}"
  | blockWidth block bits => s!"block {block} declares {bits} bits"
  | blockPastEnd block blockSize offset size =>
    s!"block {block} ({blockSize} bytes at {offset}) exceeds list of {size} bytes"

/-- Wording of a corruption. -/
def CorruptionFault.message : CorruptionFault → String
  | unknownMode tag => s!"unknown compression tag {tag}"
  | unknownModeInHeader tag => s!"Data corruption: unknown compression tag {tag}"
  | shortHeader size => s!"file too short for header: {size} bytes"
  | badMagic => "bad magic"
  | unsupportedVersion version => s!"unsupported version {version}"
  | sectionOverflow descriptionSize adjacencySize =>
    s!"section lengths overflow: meta {descriptionSize} / adjacency {adjacencySize}"
  | sizeMismatch expected actual => s!"expected {expected} bytes, file has {actual}"
  | checksumMismatch expected actual =>
    "checksum mismatch: expected " ++ hexWord expected ++ ", got " ++ hexWord actual
  | description => "meta"
  | layoutCounts offsets degrees nodes =>
    s!"{offsets} offsets / {degrees} degrees for {nodes} nodes"
  | offsetsNotMonotonic => "offsets not monotonic"
  | degreeSum sum declared => s!"degrees sum to {sum}, header says {declared}"
  | listOutsideBuffer node start stop size =>
    s!"adjacency of node {node} ({start}..{stop}) outside buffer of {size} bytes"
  | listLength node found degree => s!"node {node} decoded {found} targets, degree is {degree}"
  | selfCandidate node => s!"node {node} lists itself as candidate"
  | reported text => text

/-- Wording of a refused call. -/
def ArgumentFault.message : ArgumentFault → String
  | bitWidth bits => s!"bit width {bits} > 64"
  | bitWritePastEnd bits position size =>
    s!"bit write of {bits} bits at {position} overflows {size} byte buffer"
  | unpairedProperties targets properties => s!"{targets} targets but {properties} properties"
  | nodeOutOfRange node nodeCount => s!"node {node} out of range (node count {nodeCount})"
  | relationshipOutOfRange source target nodeCount =>
    s!"relationship ({source}, {target}) outside node range 0..{nodeCount}"
  | columnLength name values nodeCount =>
    s!"property '{name}' has {values} values for {nodeCount} nodes"
  | degreeTooLarge degree => s!"degree {degree} exceeds u32 range"
  | reported text => text

/-- In messages a number has the fewest digits that read back and never an exponent. -/
def messageNumber : Decimal.Layout where
  positional := none
  keepPoint := false
  tie := .upward
  nan := "NaN"
  positiveInfinity := "inf"
  negativeInfinity := "-inf"

/-- Wording of refused settings. -/
def ConfigFault.message : ConfigFault → String
  | noConcurrency => "concurrency must be at least 1"
  | noIterations => "max_iterations must be at least 1"
  | topKTooLarge topK => s!"top_k {topK} is too large"
  | outsideUnit field zeroAllowed value =>
    field ++ " must be in " ++ (if zeroAllowed then "[" else "(") ++ "0, 1], got "
      ++ messageNumber.render value
  | repeatedProperty name => s!"node property '{name}' listed twice"
  | noThreads => "executor needs at least one thread"
  | noProperties => "at least one node property is required"
  | unsupportedMetric metric kind =>
    "metric " ++ metric.label ++ " is not supported for " ++ kind.label ++ " properties"
  | mistyped => "mistyped field"

/-- Wording of a crash. -/
def Crash.message : Crash → String
  | indexOutOfRange index size =>
    s!"index out of bounds: the len is {size} but the index is {index}"
  | cutPastEnd => "mid > len"
  | unequal left right =>
    s!"assertion `left == right` failed\n  left: {left}\n right: {right}"
  | emptyRange => "cannot sample empty range"
  | notAProbability => "probability outside the unit interval"
  | sampleTooLarge => "sample larger than its source"
  | capacityOverflow => "capacity overflow"
  | raised text => text
  | unexplained => "task panicked"

/-- Name of the family of a fault. -/
def Fault.family : Fault → String
  | io => "Io"
  | serialization => "Serialization"
  | invalidConfig _ => "InvalidConfig"
  | terminated => "Terminated"
  | corruptEncoding _ => "CorruptEncoding"
  | corruption _ => "Corruption"
  | taskFailed _ => "TaskFailed"
  | propertyNotFound _ => "PropertyNotFound"
  | typeMismatch _ => "TypeMismatch"
  | invalidArgument _ => "InvalidArgument"
  | crash _ => "Crash"

/-- Wording of a fault. -/
def Fault.message : Fault → String
  | io => "IO error"
  | serialization => "Serialization error"
  | invalidConfig cause => "Invalid configuration: " ++ cause.message
  | terminated => "Computation terminated"
  | corruptEncoding cause => "Corrupt encoding: " ++ cause.message
  | corruption cause => "Data corruption: " ++ cause.message
  | taskFailed text => "Task failed: " ++ text
  | propertyNotFound name => "Node property not found: " ++ name
  | typeMismatch text => "Type error: " ++ text
  | invalidArgument cause => "Invalid argument: " ++ cause.message
  | crash cause => cause.message

end NeighborGraph
