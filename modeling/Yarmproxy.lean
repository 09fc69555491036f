import Yarmproxy.Transition
import Yarmproxy.Lists
import Yarmproxy.Cpp
import Yarmproxy.ReadBuffer
import Yarmproxy.BufferQueue
import Yarmproxy.RedisProtocol
import Yarmproxy.RedisEncoding
import Yarmproxy.RedisArrays
import Yarmproxy.RedisRoundTrip
import Yarmproxy.RedisSoundness
import Yarmproxy.RedisItems
import Yarmproxy.CreateCommand
import Yarmproxy.MemcLine
import Yarmproxy.Config
import Yarmproxy.ConfigFile
import Yarmproxy.ConfigReload
import Yarmproxy.Allocator
import Yarmproxy.KeyLocator
import Yarmproxy.HashRing
import Yarmproxy.BackendConn
import Yarmproxy.BackendPool
import Yarmproxy.BackendTimers
import Yarmproxy.BackendCallbacks
import Yarmproxy.Command
import Yarmproxy.Outcome
import Yarmproxy.SimpleReply
import Yarmproxy.SingleCommand
import Yarmproxy.SingleReply
import Yarmproxy.Relay
import Yarmproxy.MemcGetCommand
import Yarmproxy.MemcGetSplit
import Yarmproxy.MemcGetReply
import Yarmproxy.MemcGetAssembly
import Yarmproxy.MemcGetRun
import Yarmproxy.RedisMgetCommand
import Yarmproxy.RedisMgetFronts
import Yarmproxy.RedisArity
import Yarmproxy.RedisMsetCommand
import Yarmproxy.RedisMsetReply
import Yarmproxy.RedisMsetRun
import Yarmproxy.RedisDelCommand
import Yarmproxy.ClientConn
import Yarmproxy.Commands
import Yarmproxy.MemcStorage
import Yarmproxy.MemcScan
import Yarmproxy.RedisMgetReply
import Yarmproxy.RedisMgetBackend
import Yarmproxy.RedisMgetNils
import Yarmproxy.RedisMgetSchedule
import Yarmproxy.RedisSegments
import Yarmproxy.RedisMgetPlan
import Yarmproxy.RedisMgetRun
import Yarmproxy.RedisDelShares
import Yarmproxy.RedisDelReply
import Yarmproxy.RedisDelRun
import Yarmproxy.Requests
import Yarmproxy.Discipline
import Yarmproxy.ClientOrder
import Yarmproxy.ClientInvariant
import Yarmproxy.Conduct
import Yarmproxy.ConductSingle
import Yarmproxy.ConductSplit
import Yarmproxy.ConductBatch
import Yarmproxy.CommandClasses
import Yarmproxy.ContractPlain
import Yarmproxy.ContractBatch
import Yarmproxy.CommandFamily
import Yarmproxy.ClientLocks
import Yarmproxy.CommandLocks
import Yarmproxy.SingleRequests
import Yarmproxy.SingleHandover
import Yarmproxy.ClientStream
import Yarmproxy.ClientPlaces
import Yarmproxy.PassThrough
import Yarmproxy.ClientReplies
import Yarmproxy.LockedBytes
import Yarmproxy.ProxyServer
import Yarmproxy.DoobsHash
