import ShardStream.Engine.Pipelines
import ShardStream.Engine.Delivery

/-!
# Offsets reported to Kafka clients

A Kafka fetch reports a high watermark, a last stable offset and the log start of a partition, and
`ListOffsets` its earliest and latest offset. The first two and the latest offset are the replicated
high watermark, whose cursor passes the chunks of undecided groups. A fetch in the replicated mode
ends before such a chunk, so what is reported is the end of the fetch as long as every such chunk
has a batch before it, or is one itself, that the cursor stops at.
-/

namespace ShardStream.Kafka

open PartitionCore DenseOrderedMap

section Later

variable {st st' : PartitionState} {key latest : Nat} {b : BatchRuntime}

end Later

end ShardStream.Kafka
