/-!
# Zig-zag — signed steps as unsigned words

A signed step `d` becomes `2 * d` when it is not negative and `-2 * d - 1` when it is, so that
small steps in either direction are small words.
-/

namespace NeighborGraph.ZigZag

/-- The word of a signed step. -/
def encode (step : Int64) : UInt64 := ((step <<< 1) ^^^ (step >>> 63)).toUInt64

/-- The signed step of a word. -/
def decode (word : UInt64) : Int64 := (word >>> 1).toInt64 ^^^ -(word &&& 1).toInt64

end NeighborGraph.ZigZag
