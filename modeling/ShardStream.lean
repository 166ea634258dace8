import ShardStream.Engine.Retention
import ShardStream.Engine.JournalFaults
import ShardStream.Storage.ShardLog
import ShardStream.Storage.TierCrash
import ShardStream.Storage.Collect
import ShardStream.Engine.Fencing
import ShardStream.Engine.Overload
import ShardStream.Sink.Replay
import ShardStream.Core.SequencerRuns
import ShardStream.Engine.Watermarks
import ShardStream.Client.LogicalConsumer
import ShardStream.Engine.Idempotence
import ShardStream.Engine.Waiters
import ShardStream.Kafka.Offsets
import ShardStream.Kafka.Varint
import ShardStream.Storage.FrameWrite
import ShardStream.Core.Channel
import ShardStream.Engine.Admission
import ShardStream.Runtime.Forward
