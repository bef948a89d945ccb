import Traversals.Eager.Checked
import Traversals.Eager.Drain
import Traversals.Eager.Search
import Traversals.Expression.Builder
import Traversals.Json.Exchange
import Traversals.Pipeline.Next
import Traversals.Session.Basic
import Traversals.Proofs.Upstream
import Traversals.Proofs.SharedMemo
import Traversals.Proofs.SharedBatches
import Traversals.Proofs.Slice.Progression
import Traversals.Proofs.Drained
import Traversals.Proofs.Product.Agreement
import Traversals.Proofs.Product.Economy
import Traversals.Proofs.Zip.Rows
import Traversals.Proofs.Copies.Interleaving
import Traversals.Proofs.Hint.Soundness
import Traversals.Proofs.Exhaustion
import Traversals.Proofs.Selection
import Traversals.Proofs.Cycle.Ending
import Traversals.Proofs.Shelf.Basic
import Traversals.Proofs.Shelf.Interchange
import Traversals.Proofs.Slice.Streaming
import Traversals.Proofs.Slice.PastEnd
import Traversals.Proofs.Zip.Lanes
import Traversals.Proofs.Chain.Basic
import Traversals.Proofs.Chain.Streams
import Traversals.Proofs.Chain.Fusion
import Traversals.Proofs.Chain.Streaming
import Traversals.Proofs.Zip.Agreement
import Traversals.Proofs.Product.Emptiness
import Traversals.Proofs.Cycle.Passes
import Traversals.Proofs.Batches.Chunks
import Traversals.Proofs.Slice.Walk
import Traversals.Proofs.Slice.Overflow
import Traversals.Proofs.Numbering
import Traversals.Proofs.Building.Calls
import Traversals.Proofs.Building.Refusals
import Traversals.Proofs.Cycle.Loop
import Traversals.Proofs.Matching
import Traversals.Proofs.Product.Labels
import Traversals.Proofs.Json.Grammar
import Traversals.Proofs.Json.Lexing
import Traversals.Proofs.Json.Parsing
import Traversals.Proofs.Json.Writing
import Traversals.Proofs.Json.Records
