import NeighborGraph.Config.Text
import NeighborGraph.Descent.Run
import NeighborGraph.Fault.Message
import NeighborGraph.Graph.File
import NeighborGraph.Graph.Footprint
import NeighborGraph.Proofs.Action
import NeighborGraph.Proofs.Action.Delivers
import NeighborGraph.Proofs.Action.Maintains
import NeighborGraph.Proofs.Binary.Nearest
import NeighborGraph.Proofs.Binary.Numbers
import NeighborGraph.Proofs.Binary.Operations
import NeighborGraph.Proofs.Binary.Rounding
import NeighborGraph.Proofs.Checksum
import NeighborGraph.Proofs.Codec.Aggregation
import NeighborGraph.Proofs.Codec.AnyBytes
import NeighborGraph.Proofs.Codec.BitBuffer
import NeighborGraph.Proofs.Codec.Bits
import NeighborGraph.Proofs.Codec.DeltaStream
import NeighborGraph.Proofs.Codec.Exact
import NeighborGraph.Proofs.Codec.Fields
import NeighborGraph.Proofs.Codec.Packed
import NeighborGraph.Proofs.Codec.RoundTrip
import NeighborGraph.Proofs.Codec.Size
import NeighborGraph.Proofs.Codec.Spelling
import NeighborGraph.Proofs.Codec.StreamFaults
import NeighborGraph.Proofs.Codec.StreamWords
import NeighborGraph.Proofs.Codec.Unpaired
import NeighborGraph.Proofs.Codec.Words
import NeighborGraph.Proofs.Config.Text
import NeighborGraph.Proofs.Decimal.Shortest
import NeighborGraph.Proofs.Descent.Accounts
import NeighborGraph.Proofs.Descent.Combine
import NeighborGraph.Proofs.Descent.Convergence
import NeighborGraph.Proofs.Descent.Draws
import NeighborGraph.Proofs.Descent.Exhaustive
import NeighborGraph.Proofs.Descent.Footing
import NeighborGraph.Proofs.Descent.Join
import NeighborGraph.Proofs.Descent.Ledger
import NeighborGraph.Proofs.Descent.Lists
import NeighborGraph.Proofs.Descent.Phases
import NeighborGraph.Proofs.Descent.Range
import NeighborGraph.Proofs.Descent.Result
import NeighborGraph.Proofs.Descent.Run
import NeighborGraph.Proofs.Descent.Seeding
import NeighborGraph.Proofs.Descent.Shares
import NeighborGraph.Proofs.Descent.Success
import NeighborGraph.Proofs.Descent.Untouched
import NeighborGraph.Proofs.Descent.Updates
import NeighborGraph.Proofs.Graph.Build
import NeighborGraph.Proofs.Graph.Columns
import NeighborGraph.Proofs.Graph.Cursor
import NeighborGraph.Proofs.Graph.Damage
import NeighborGraph.Proofs.Graph.Description
import NeighborGraph.Proofs.Graph.File
import NeighborGraph.Proofs.Graph.Footprint
import NeighborGraph.Proofs.Graph.LaidOut
import NeighborGraph.Proofs.Graph.Layout
import NeighborGraph.Proofs.Graph.Opened
import NeighborGraph.Proofs.Graph.Position
import NeighborGraph.Proofs.Graph.Refused
import NeighborGraph.Proofs.Graph.Steps
import NeighborGraph.Proofs.Graph.Validated
import NeighborGraph.Proofs.Graph.Walkable
import NeighborGraph.Proofs.Json.Numbers
import NeighborGraph.Proofs.Json.Reals
import NeighborGraph.Proofs.Json.Records
import NeighborGraph.Proofs.Json.Scaling
import NeighborGraph.Proofs.Json.Strings
import NeighborGraph.Proofs.Json.Values
import NeighborGraph.Proofs.NeighborList.Best
import NeighborGraph.Proofs.NeighborList.Offers
import NeighborGraph.Proofs.NeighborList.Operations
import NeighborGraph.Proofs.NeighborList.Replay
import NeighborGraph.Proofs.NeighborList.Valid
import NeighborGraph.Proofs.NumberLine
import NeighborGraph.Proofs.Random
import NeighborGraph.Proofs.Random.Distinct
import NeighborGraph.Proofs.Random.Total
import NeighborGraph.Proofs.Schedule.Ranges
import NeighborGraph.Proofs.Schedule.Tasks
import NeighborGraph.Proofs.Similarity.Counts
import NeighborGraph.Proofs.Similarity.Sets
import NeighborGraph.Proofs.Descent.Sampling
import NeighborGraph.Proofs.Action.Progress
import NeighborGraph.Proofs.Descent.Transpose
import NeighborGraph.Proofs.NeighborList.Split
import NeighborGraph.Proofs.Descent.Split
import NeighborGraph.Schedule.Handout
import NeighborGraph.Proofs.Similarity.Magnitude
import NeighborGraph.Proofs.Similarity.Symmetry
import NeighborGraph.Proofs.Schedule.Handout
import NeighborGraph.Proofs.Descent.Orderly
import NeighborGraph.Proofs.Descent.Parallel
import NeighborGraph.Proofs.Descent.Cancellation
import NeighborGraph.Proofs.Outcome
