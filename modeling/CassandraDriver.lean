import CassandraDriver.Data.CyclicWalk
import CassandraDriver.TokenMap.Basic
import CassandraDriver.TokenMap.Replication
import CassandraDriver.Data.BigEndian
import CassandraDriver.DataType.Basic
import CassandraDriver.DataType.CqlParser
import CassandraDriver.DataType.CqlRoundTrip
import CassandraDriver.Value.Basic
import CassandraDriver.Value.Collection
import CassandraDriver.Value.CollectionRoundTrip
import CassandraDriver.Data.FixedBuffer
import CassandraDriver.Request.Statement
import CassandraDriver.Request.FrameEncoding
import CassandraDriver.Request.QueryRequest
import CassandraDriver.Request.BindByName
import CassandraDriver.Data.UpperBound
import CassandraDriver.TokenMap.TokenMapImpl
import CassandraDriver.TokenMap.Lookup
import CassandraDriver.TokenMap.Incremental
import CassandraDriver.DataType.CqlParseFailure
import CassandraDriver.Data.ZigZag
import CassandraDriver.Value.Duration
import CassandraDriver.Value.Getters
import CassandraDriver.Data.Bitmap
import CassandraDriver.Connection.StreamManager
import CassandraDriver.Policy.HostLists
import CassandraDriver.Ssl.HostCheck
import CassandraDriver.Ssl.VerifyIdentity
import CassandraDriver.TokenMap.Murmur3
import CassandraDriver.HashTable
import CassandraDriver.Connection.ResponseDecode
import CassandraDriver.Uuid
import CassandraDriver.TimestampGenerator
import CassandraDriver.Value.Iterators
import CassandraDriver.Address
import CassandraDriver.Policy.DcAwarePlan
import CassandraDriver.Policy.ChainedPlans
import CassandraDriver.Policy.YbPartitions
import CassandraDriver.Request.SpeculativeExecution
import CassandraDriver.DateTime
import CassandraDriver.DataType.ClassNameParser
import CassandraDriver.Metadata.TableKeys
import CassandraDriver.Value.Tuple
import CassandraDriver.Connection.ResultResponse
import CassandraDriver.Concurrency.Future
import CassandraDriver.Concurrency.SessionRefresh
import CassandraDriver.Connection.Pool
import CassandraDriver.Data.DoubleWord
import CassandraDriver.TokenMap.RandomPartitioner
import CassandraDriver.Data.LinkedCycle
import CassandraDriver.Data.Simulation
import CassandraDriver.Tls.RingBuffer
import CassandraDriver.Tls.RingBufferInvariant
import CassandraDriver.Tls.RingBufferOps
import CassandraDriver.Tls.RingBufferRefinement
import CassandraDriver.Data.HappensBefore
import CassandraDriver.Metadata.SchemaSnapshot
import CassandraDriver.Connection.RequestLifecycle
import CassandraDriver.Connection.RequestLifecycleInvariant
import CassandraDriver.Concurrency.MpmcQueue
import CassandraDriver.Concurrency.MpmcQueueInvariant
import CassandraDriver.Concurrency.MpmcQueueSafety
import CassandraDriver.Data.BoundedQueue
import CassandraDriver.Concurrency.SpscQueue
import CassandraDriver.Session.Dispatch
import CassandraDriver.Session.OnExecute
import CassandraDriver.Request.RetryPolicy
import CassandraDriver.Session.Lifecycle
