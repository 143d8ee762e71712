import RocksBatch.Basic.Coding
import RocksBatch.Batch.Record
import RocksBatch.Batch.Layout
import RocksBatch.Batch.WriteBatch
import RocksBatch.Batch.Iterate
import RocksBatch.Batch.Ops
import RocksBatch.Batch.Reachable
import RocksBatch.Batch.Invariant
import RocksBatch.Batch.WellFormed
import RocksBatch.Properties.RoundTrip
import RocksBatch.Properties.Atomic
import RocksBatch.Properties.LongFields
import RocksBatch.Properties.Append
import RocksBatch.Properties.WalTermination
import RocksBatch.Properties.SavePoints
import RocksBatch.Properties.Decoding
import RocksBatch.Properties.Framing
import RocksBatch.Inserter.MemTableInserter
import RocksBatch.Inserter.Sequencing
import RocksBatch.Inserter.Recovery
import RocksBatch.Inserter.Gating
import RocksBatch.Inserter.MergeFolding
import RocksBatch.Inserter.Transactions
import RocksBatch.Inserter.WriteGroup
import RocksBatch.Inserter.RecoveryRuns
import RocksBatch.Inserter.RecoveryModel
