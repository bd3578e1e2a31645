import Ting.Hls.RefusedEviction
import Ting.Hls.Multicast
import Ting.Hls.Startup
import Ting.Hls.C2hFifo
import Ting.Hls.LockTable
import Ting.Hls.DataFetch
import Ting.Hls.ReplicaAddr
import Ting.Hls.Accounting
import Ting.Hls.Replies
import Ting.Protocol.Refusals
import Ting.Protocol.Writes
import Ting.Soft.Slabs
import Ting.Soft.Coverage
import Ting.Soft.Flags
import Ting.Soft.Evictions
import Ting.Soft.Hits
import Ting.Soft.EvictionLocks
import Ting.Soft.Refill
import Ting.Soft.FlatMemory
import Ting.Soft.WRLock
import Ting.Soft.LastBuffer
import Ting.Hls.BurstMerge
import Ting.Hls.CtrlMsgDeliver
import Ting.Hls.DdrPort
import Ting.Soft.SlabItems
import Ting.Soft.SlabLists
import Ting.Soft.SlabPages
import Ting.Soft.SlabBlocks
import Ting.Soft.SlabRuns
import Ting.Soft.SlabCount
import Ting.Soft.SlabRealloc
import Ting.System.State
import Ting.Soft.Searches
import Ting.System.Tracks
import Ting.System.Turns
import Ting.System.Messages
import Ting.System.Refinement
import Ting.System.Orders
import Ting.System.Spins
import Ting.Lib.Layout
import Ting.Database.TpccKeys
import Ting.Database.Memory
import Ting.Database.GAddrArray
import Ting.Database.HashBucket
import Ting.Database.BucketMap
import Ting.Database.Catalogue
import Ting.Database.Transactions
import Ting.Hls.Ownership
import Ting.System.Settles
import Ting.System.Backing
import Ting.System.Coherence
import Ting.System.AtRest
import Ting.System.Outcomes
import Ting.System.Asserts
import Ting.System.Agents
