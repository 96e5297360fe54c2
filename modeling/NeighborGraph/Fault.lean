import NeighborGraph.Metric
import NeighborGraph.Graph.ColumnKind

/-!
# Faults — everything that can go wrong, by cause

A computation of this library either yields its value or a `Fault`.  Each family of faults lists
its causes with the figures a message needs; the wording itself is in
`NeighborGraph.Fault.Message`.

* `EncodingFault` — bytes that no adjacency list is encoded as;
* `CorruptionFault` — a graph file, or a candidate map, that contradicts itself;
* `ArgumentFault` — a call the callee refuses;
* `ConfigFault` — settings that no run starts with;
* `Crash` — a broken promise of the caller, such as an index beyond the end.

A crash inside a scheduled task becomes that task's failure (`Fault.taskFailed`); elsewhere it
reaches the caller as it is.
-/

namespace NeighborGraph

/-- Why bytes are not an encoded adjacency list. -/
inductive EncodingFault
  | truncatedVarLong (start : Nat)
  | varLongOverflow (start : Nat)
  | limitBeyondBuffer (limit size : Nat)
  | unterminatedVarLong (start : Nat)
  | outputExhausted (slots left : Nat)
  | streamEnded (expected found : Nat)
  | wordPastEnd (offset size : Nat)
  | bitWidth (bits : Nat)
  | bitReadPastEnd (bits position size : Nat)
  | missingWidth (block : Nat)
  | blockWidth (block bits : Nat)
  | blockPastEnd (block blockSize offset size : Nat)
deriving DecidableEq, Repr

/-- Why stored or derived data contradicts itself. -/
inductive CorruptionFault
  | unknownMode (tag : Nat)
  | unknownModeInHeader (tag : Nat)
  | shortHeader (size : Nat)
  | badMagic
  | unsupportedVersion (version : Nat)
  | sectionOverflow (descriptionSize adjacencySize : Nat)
  | sizeMismatch (expected actual : Nat)
  | checksumMismatch (expected actual : UInt32)
  | description
  | layoutCounts (offsets degrees nodes : Nat)
  | offsetsNotMonotonic
  | degreeSum (sum declared : Nat)
  | listOutsideBuffer (node start stop size : Nat)
  | listLength (node found degree : Nat)
  | selfCandidate (node : Nat)
  | reported (text : String)
deriving DecidableEq, Repr

/-- Why a call is refused. -/
inductive ArgumentFault
  | bitWidth (bits : Nat)
  | bitWritePastEnd (bits position size : Nat)
  | unpairedProperties (targets properties : Nat)
  | nodeOutOfRange (node nodeCount : Nat)
  | relationshipOutOfRange (source target nodeCount : Nat)
  | columnLength (name : String) (values nodeCount : Nat)
  | degreeTooLarge (degree : Nat)
  | reported (text : String)
deriving DecidableEq, Repr

/-- Why settings are refused. -/
inductive ConfigFault
  | noConcurrency
  | noIterations
  | topKTooLarge (topK : Nat)
  | outsideUnit (field : String) (zeroAllowed : Bool) (value : Float)
  | repeatedProperty (name : String)
  | noThreads
  | noProperties
  | unsupportedMetric (metric : Metric) (kind : ColumnKind)
  | mistyped

/-- A promise of the caller that turned out broken. -/
inductive Crash
  | indexOutOfRange (index size : Nat)
  | cutPastEnd
  | unequal (left right : Nat)
  | emptyRange
  | notAProbability
  | sampleTooLarge
  | capacityOverflow
  | raised (text : String)
  | unexplained
deriving DecidableEq, Repr

/-- What a computation yields in place of its value. -/
inductive Fault
  | io
  | serialization
  | invalidConfig (cause : ConfigFault)
  | terminated
  | corruptEncoding (cause : EncodingFault)
  | corruption (cause : CorruptionFault)
  | taskFailed (text : String)
  | propertyNotFound (name : String)
  | typeMismatch (text : String)
  | invalidArgument (cause : ArgumentFault)
  | crash (cause : Crash)

/-- A computation that yields a value or a fault. -/
abbrev Checked (α : Type) := Except Fault α

end NeighborGraph
