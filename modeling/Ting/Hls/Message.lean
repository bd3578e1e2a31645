/-
# `Ting.Hls.Message` — control messages and directory entries

The words every other module speaks in: the message types of `RawMessageType`, the
directory states of `RawState`, the control message `struct_ctrl_msg` that all FPGA
stages pass on, and the extended directory entry `struct_dir_data_e`.

Node ids run below `max_node_num = 8`, application threads below
`max_appt_num_per_node = 24` and system queues below `max_syst_num_per_node = 8`, so
they are `Fin`s; a bitmap cell only ever holds 0 or 1, so it is a `Bool`.
-/
import Mathlib.Algebra.GroupWithZero.Nat
import Mathlib.Data.Fintype.Card
import Mathlib.Data.Fintype.Pi
import Mathlib.Logic.Function.Basic

namespace Ting

/-- A node id, below `max_node_num`. -/
abbrev NodeId := Fin 8

/-- An application thread of a node, below `max_appt_num_per_node`. -/
abbrev ThreadId := Fin 24

/-- A system queue of a node and the agent that polls it, below `max_syst_num_per_node`. -/
abbrev AgentId := Fin 8

instance neZero_nodes : NeZero (8 : ℕ) := ⟨by decide⟩

instance neZero_threads : NeZero (24 : ℕ) := ⟨by decide⟩

/-- `dir_gblock_index`: the number of a block on its home node. -/
abbrev BlockIndex := BitVec 32

/-- A 64-bit address of host memory. -/
abbrev Addr := BitVec 64

/-- `RawMessageType`. -/
inductive RawMessageType
  | rReadMiss
  | rWriteMiss
  | rWriteShared
  | rEvictShared
  | rEvictDirty
  | dir2AppReadMissAckdata
  | dir2AppWriteMissAckdata
  | dir2AppWriteMissShareddata
  | dir2AppWriteSharedOnlyack
  | dir2AppEvictSharedAck
  | dir2AppEvictDirtyAck
  | dir2AppMCheckFail
  | dir2AppBitmapCheckFail
  | dir2AgentReadMissDirty
  | dir2AgentWriteMissDirty
  | dir2AgentWriteMissShared
  | dir2AgentWriteSharedNotonly
  | agent2DirReadMissDirtyAckdata
  | agent2DirWriteMissDirtyAck
  | agent2DirWriteMissSharedAck
  | agent2DirWriteSharedNotonlyAck
  | agent2DirMCheckFail
  | agent2AppReadMissDirtyAckdata
  | agent2AppWriteMissDirtyAckdata
  | dir2AppWriteMissSharedAggackAck
  | dir2AppWriteSharedNotonlyAggackAck
  | initDir
  | initNet
  deriving DecidableEq, Repr

namespace RawMessageType

instance : Fintype RawMessageType :=
  .ofList [rReadMiss, rWriteMiss, rWriteShared, rEvictShared, rEvictDirty,
    dir2AppReadMissAckdata, dir2AppWriteMissAckdata, dir2AppWriteMissShareddata,
    dir2AppWriteSharedOnlyack, dir2AppEvictSharedAck, dir2AppEvictDirtyAck,
    dir2AppMCheckFail, dir2AppBitmapCheckFail, dir2AgentReadMissDirty,
    dir2AgentWriteMissDirty, dir2AgentWriteMissShared, dir2AgentWriteSharedNotonly,
    agent2DirReadMissDirtyAckdata, agent2DirWriteMissDirtyAck, agent2DirWriteMissSharedAck,
    agent2DirWriteSharedNotonlyAck, agent2DirMCheckFail, agent2AppReadMissDirtyAckdata,
    agent2AppWriteMissDirtyAckdata, dir2AppWriteMissSharedAggackAck,
    dir2AppWriteSharedNotonlyAggackAck, initDir, initNet]
    fun t => by cases t <;> decide

/-- The five requests, `R_READ_MISS` to `R_EVICT_DIRTY`. -/
def isRequest : RawMessageType → Bool
  | rReadMiss | rWriteMiss | rWriteShared | rEvictShared | rEvictDirty => true
  | _ => false

/-- The range `AGENT_2_DIR_READ_MISS_DIRTY_ACKDATA` to `AGENT_2_DIR_M_CHECK_FAIL`. -/
def isAgent2Dir : RawMessageType → Bool
  | agent2DirReadMissDirtyAckdata | agent2DirWriteMissDirtyAck | agent2DirWriteMissSharedAck
  | agent2DirWriteSharedNotonlyAck | agent2DirMCheckFail => true
  | _ => false

/-- The four orders of a directory to the agents of a node. -/
def isOrder : RawMessageType → Bool
  | dir2AgentReadMissDirty | dir2AgentWriteMissDirty | dir2AgentWriteMissShared
  | dir2AgentWriteSharedNotonly => true
  | _ => false

/-- The four acknowledgements of a cache controller to a directory. -/
def isAck : RawMessageType → Bool
  | agent2DirReadMissDirtyAckdata | agent2DirWriteMissDirtyAck | agent2DirWriteMissSharedAck
  | agent2DirWriteSharedNotonlyAck => true
  | _ => false

/-- The answers to an application thread. -/
def isAnswer : RawMessageType → Bool
  | dir2AppReadMissAckdata | dir2AppWriteMissAckdata | dir2AppWriteMissShareddata
  | dir2AppWriteSharedOnlyack | dir2AppEvictSharedAck | dir2AppEvictDirtyAck
  | dir2AppMCheckFail | dir2AppBitmapCheckFail | agent2AppReadMissDirtyAckdata
  | agent2AppWriteMissDirtyAckdata | dir2AppWriteMissSharedAggackAck
  | dir2AppWriteSharedNotonlyAggackAck => true
  | _ => false

/-- `deparser` hands these types to the directory and all others to the cache controller. -/
def toDir (t : RawMessageType) : Bool :=
  t.isRequest || t.isAgent2Dir

end RawMessageType

/-- `RawState`. -/
inductive RawState
  | sUnshared
  | sShared
  | sDirty
  | sToUnshared
  | sToShared
  | sToDirty
  deriving DecidableEq, Repr

/-- The two states in which the entry waits for acknowledgements. -/
def RawState.isTransient : RawState → Bool
  | .sToShared | .sToDirty => true
  | _ => false

/-- `THREAD_TYPE_APP` and `THREAD_TYPE_SYS`. -/
inductive ThreadType
  | app
  | sys
  deriving DecidableEq, Repr

/-- `struct_ctrl_msg`, less `general_c2h_owner` and the two `init` fields, which only the
initialisation and the host ring buffers look at. -/
structure CtrlMsg where
  mtype : RawMessageType
  reqClineNodeID : NodeId
  reqClineAppThreadID : ThreadId
  reqClineAddr : Addr
  reqClineIndex : BitVec 32
  clineTag : BitVec 64
  agentClineNodeID : NodeId
  agentClineAddr : Addr
  dirGblockAddr : Addr
  dirGblockIndex : BlockIndex
  dirGblockBitmap : NodeId → Bool
  dirGblockNodeID : NodeId
  dataMsgLength : BitVec 16
  dstThreadType : ThreadType
  dstNodeId : NodeId
  lockPosition : BitVec 8
  deriving DecidableEq

/-- `struct_dir_data_e`. -/
structure DirDataE where
  dirGblockAddr : Addr
  dirGblockIndex : BlockIndex
  dirGblockBitmap : NodeId → Bool
  state : RawState
  replicaCount : BitVec 8
  agentClineAddr : NodeId → Addr
  deriving DecidableEq

/-- A block: its home node and its index there. -/
structure Block where
  nodeID : NodeId
  index : BlockIndex
  deriving DecidableEq

/-- The block a message is about. -/
def CtrlMsg.block (m : CtrlMsg) : Block :=
  ⟨m.dirGblockNodeID, m.dirGblockIndex⟩

/-- The fields that every message derived from a request copies from it: who asked, into
which buffer, for which line and block. -/
structure Header where
  reqClineNodeID : NodeId
  reqClineAppThreadID : ThreadId
  reqClineAddr : Addr
  reqClineIndex : BitVec 32
  clineTag : BitVec 64
  block : Block
  deriving DecidableEq

/-- The header of a message. -/
def CtrlMsg.header (m : CtrlMsg) : Header :=
  ⟨m.reqClineNodeID, m.reqClineAppThreadID, m.reqClineAddr, m.reqClineIndex, m.clineTag, m.block⟩

/-- An entry as `INIT_DIR` leaves it: `h2c_w_to_dir_data` clears the count, `DSM::DSM` sends
an empty bitmap and `S_UNSHARED`; address and replica addresses are whatever they are. -/
def DirDataE.IsInit (e : DirDataE) : Prop :=
  e.state = .sUnshared ∧ e.replicaCount = 0 ∧ ∀ n, e.dirGblockBitmap n = false

end Ting
