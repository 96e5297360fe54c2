import NeighborGraph.Codec.Adjacency

/-!
# Cursors — walking one adjacency list

A `Cursor` hands out the targets of one node in the order of its list, decoding one chunk at a time
as it needs them.  Every operation yields a result and the cursor after it; also a failed operation
leaves a cursor, from which a later call goes on.
-/

namespace NeighborGraph

/-- A position in the list of one node. -/
structure Cursor where
  bytes : List UInt8
  decoder : Decoder
  withProperties : Bool
  /-- Decoded targets that were not handed out yet, each with its property. -/
  pending : List (UInt64 × Binary64) := []
  /-- Targets not yet handed out. -/
  remaining : Nat
deriving DecidableEq, Repr

namespace Cursor

/-- The cursor at the front of a list. -/
def start (bytes : List UInt8) (decoder : Decoder) (withProperties : Bool) : Cursor :=
  { bytes, decoder, withProperties, remaining := decoder.remaining }

/-- Targets with their properties; a list without properties has NaN for each. -/
def pair (withProperties : Bool) (chunk : Chunk) : List (UInt64 × Binary64) :=
  if withProperties then chunk.targets.zip chunk.properties
  else chunk.targets.map fun t => (t, Binary64.nan)

/-- Decodes a chunk when nothing is pending. -/
def fill (c : Cursor) : Except EncodingFault Unit × Cursor :=
  match c.pending with
  | _ :: _ => (.ok (), c)
  | [] =>
    match c.decoder.next c.bytes c.withProperties with
    | (.error fault, decoder) => (.error fault, { c with decoder })
    | (.ok chunk, decoder) => (.ok (), { c with decoder, pending := pair c.withProperties chunk })

/-- The next target with its property; nothing at the end. -/
def next (c : Cursor) : Except EncodingFault (Option (UInt64 × Binary64)) × Cursor :=
  match c.fill with
  | (.error fault, c) => (.error fault, c)
  | (.ok (), c) =>
    match c.pending with
    | [] => (.ok none, c)
    | entry :: rest => (.ok (some entry), { c with pending := rest, remaining := c.remaining - 1 })

/-- The next target; nothing at the end. -/
def advance (c : Cursor) : Except EncodingFault (Option UInt64) × Cursor :=
  let (entry, c) := c.next
  (entry.map (·.map (·.1)), c)

/-- The next target as an item of a sequence, which ends with the list; a fault is an item. -/
def item (c : Cursor) : Option (Except EncodingFault UInt64) × Cursor :=
  match c.advance with
  | (.error fault, c) => (some (.error fault), c)
  | (.ok target, c) => (target.map .ok, c)

/-- The least number of items to come, and the greatest. -/
def sizeHint (c : Cursor) : Nat × Option Nat := (c.remaining, some c.remaining)

/-- Hands out targets until one is accepted, at most `calls` of them. -/
def seek (accept : UInt64 → Bool) : (calls : Nat) → Cursor →
    Except EncodingFault (Option UInt64) × Cursor
  | 0, c => (.ok none, c)
  | calls + 1, c =>
    match c.advance with
    | (.error fault, c) => (.error fault, c)
    | (.ok none, c) => (.ok none, c)
    | (.ok (some t), c) => if accept t then (.ok (some t), c) else seek accept calls c

/-- The first target from here on that is at least `target`. -/
def seekTo (c : Cursor) (target : UInt64) : Except EncodingFault (Option UInt64) × Cursor :=
  c.seek (fun t => decide (target ≤ t)) (c.remaining + 1)

/-- The target after `skipped` others. -/
def jump : (skipped : Nat) → Cursor → Except EncodingFault (Option UInt64) × Cursor
  | 0, c => c.advance
  | skipped + 1, c =>
    match c.advance with
    | (.error fault, c) => (.error fault, c)
    | (.ok none, c) => (.ok none, c)
    | (.ok (some _), c) => jump skipped c

/-- Up to `calls` targets with their properties. -/
def take : (calls : Nat) → Cursor → Except EncodingFault (List (UInt64 × Binary64))
  | 0, _ => .ok []
  | calls + 1, c =>
    match c.next with
    | (.error fault, _) => .error fault
    | (.ok none, _) => .ok []
    | (.ok (some entry), c) => (take calls c).map (entry :: ·)

/-- Everything from here on, with the properties. -/
def drainPairs (c : Cursor) : Except EncodingFault (List (UInt64 × Binary64)) :=
  c.take (c.remaining + 1)

/-- All targets from here on. -/
def drain (c : Cursor) : Except EncodingFault (List UInt64) :=
  c.drainPairs.map (·.map (·.1))

end Cursor

end NeighborGraph
