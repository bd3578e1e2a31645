/-
# `Ting.Hls.Payload` — what travels with a message

Some messages carry a line of 4096 bytes.  `dataMsgFetch` decides which, and from which
address the host is to read it; `deparser` decides at the other end whether a message
goes to the directory or to the cache controller, and to which address the host is to write
the line.  Both look at the type of a message as the number that stands in its first byte.
-/
import Ting.Hls.Codec
import Ting.Soft.GlobalAddress

namespace Ting

/-- The numbers of `RawMessageType`. -/
def RawMessageType.code : RawMessageType → BitVec 8
  | rReadMiss => 1
  | rWriteMiss => 2
  | rWriteShared => 3
  | rEvictShared => 4
  | rEvictDirty => 5
  | dir2AppReadMissAckdata => 11
  | dir2AppWriteMissAckdata => 12
  | dir2AppWriteMissShareddata => 13
  | dir2AppWriteSharedOnlyack => 14
  | dir2AppEvictSharedAck => 15
  | dir2AppEvictDirtyAck => 16
  | dir2AppMCheckFail => 17
  | dir2AppBitmapCheckFail => 18
  | dir2AgentReadMissDirty => 21
  | dir2AgentWriteMissDirty => 22
  | dir2AgentWriteMissShared => 23
  | dir2AgentWriteSharedNotonly => 24
  | agent2DirReadMissDirtyAckdata => 31
  | agent2DirWriteMissDirtyAck => 32
  | agent2DirWriteMissSharedAck => 33
  | agent2DirWriteSharedNotonlyAck => 34
  | agent2DirMCheckFail => 35
  | agent2AppReadMissDirtyAckdata => 41
  | agent2AppWriteMissDirtyAckdata => 42
  | dir2AppWriteMissSharedAggackAck => 51
  | dir2AppWriteSharedNotonlyAggackAck => 52
  | initDir => 53
  | initNet => 54

/-- `DSM_CACHE_LINE_SIZE`. -/
def dsmCacheLineSize : BitVec 16 := 4096

namespace RawMessageType

theorem code_injective : Function.Injective code := by
  decide

/-- A line of the sender's cache goes along. -/
def fromCline : RawMessageType → Bool
  | agent2DirReadMissDirtyAckdata | agent2AppReadMissDirtyAckdata
  | agent2AppWriteMissDirtyAckdata => true
  | _ => false

/-- The block goes along as the home holds it. -/
def fromGblock : RawMessageType → Bool
  | dir2AppReadMissAckdata | dir2AppWriteMissAckdata | dir2AppWriteMissShareddata => true
  | _ => false

/-- The line is written back to the block. -/
def toGblock : RawMessageType → Bool
  | agent2DirReadMissDirtyAckdata | rEvictDirty => true
  | _ => false

/-- The messages with a payload. -/
def hasData (t : RawMessageType) : Bool :=
  t.fromCline || t.fromGblock || t == rEvictDirty

end RawMessageType

open RawMessageType

namespace StructCtrlMsg

/-- The tick of `dataMsgFetch` that pops `m`: the address of the command on
`h2c_cmd_f_DMF_t_CD_out`, if there is one, and the message that goes on. -/
def dataMsgFetch (m : StructCtrlMsg) : Option Addr × StructCtrlMsg :=
  if m.mtype = agent2DirReadMissDirtyAckdata.code ∨ m.mtype = agent2AppReadMissDirtyAckdata.code ∨
      m.mtype = agent2AppWriteMissDirtyAckdata.code then
    (some m.agentClineAddr, { m with dataMsgLength := dsmCacheLineSize })
  else if m.mtype = dir2AppReadMissAckdata.code ∨ m.mtype = dir2AppWriteMissAckdata.code ∨
      m.mtype = dir2AppWriteMissShareddata.code then
    (some m.dirGblockAddr, { m with dataMsgLength := dsmCacheLineSize })
  else if m.mtype = rEvictDirty.code then
    (some m.reqClineAddr, { m with dataMsgLength := dsmCacheLineSize })
  else (none, { m with dataMsgLength := 0 })

/-- Where `deparser` puts a message. -/
inductive Port
  | cc
  | dc
  deriving DecidableEq

/-- The tick of `deparser` in `RECV_STAGE_CTRL`: the port that the message leaves by, and the
address of the command on `c2h_cmd_f_D_t_CDD_out`, if there is one. -/
def deparser (m : StructCtrlMsg) : Port × Option Addr :=
  let port :=
    if rReadMiss.code ≤ m.mtype ∧ m.mtype ≤ rEvictDirty.code then Port.dc
    else if agent2DirReadMissDirtyAckdata.code ≤ m.mtype ∧ m.mtype ≤ agent2DirMCheckFail.code then
      Port.dc
    else Port.cc
  (port,
    if m.dataMsgLength = 0 then none
    else if m.mtype = agent2DirReadMissDirtyAckdata.code ∨ m.mtype = rEvictDirty.code then
      some m.dirGblockAddr
    else some m.reqClineAddr)

/-- From the input of `dataMsgFetch` to the output of `net_rx_to_ctrl_msg` at the other end. -/
def overNet (m : StructCtrlMsg) (payload payload' : BitVec 512) (tx : StructNetRxtx)
    (rx : StructCtrlMsg) : StructCtrlMsg :=
  netRxToCtrlMsg (ctrlMsgToNetTx m.dataMsgFetch.2 payload tx) payload' rx

section Types

variable {m : StructCtrlMsg} {t : RawMessageType}

/-- By type, what is read. -/
theorem dataMsgFetch_of_type (hm : m.mtype = t.code) :
    m.dataMsgFetch = (if t.fromCline then some m.agentClineAddr
      else if t.fromGblock then some m.dirGblockAddr
      else if t = .rEvictDirty then some m.reqClineAddr else none,
      { m with dataMsgLength := if t.hasData then dsmCacheLineSize else 0 }) := by
  unfold dataMsgFetch
  simp only [hm, code_injective.eq_iff]
  cases t <;> rfl

/-- The message that `deparser` sees. -/
theorem overNet_of_type {payload payload' : BitVec 512} {tx : StructNetRxtx} {rx : StructCtrlMsg}
    (hm : m.mtype = t.code) : m.overNet payload payload' tx rx
      = { m.copyFields rx with dataMsgLength := if t.hasData then dsmCacheLineSize else 0 } := by
  rw [overNet, netRxToCtrlMsg_ctrlMsgToNetTx, dataMsgFetch_of_type hm]
  rfl

/-- By type, where the message goes. -/
theorem deparser_port (hm : m.mtype = t.code) :
    m.deparser.1 = if t.toDir then Port.dc else Port.cc := by
  unfold deparser
  simp only [hm]
  cases t <;> rfl

/-- By type, where the payload is written. -/
theorem deparser_addr (hm : m.mtype = t.code) (hd : m.dataMsgLength ≠ 0) :
    m.deparser.2 = some (if t.toGblock then m.dirGblockAddr else m.reqClineAddr) := by
  unfold deparser
  simp only [hm, hd, if_false, code_injective.eq_iff]
  cases t <;> rfl

end Types

end StructCtrlMsg

/-- A message of the fabric, bit for bit; the rest of the struct is as in `rest`. -/
def CtrlMsg.toStruct (m : CtrlMsg) (rest : StructCtrlMsg) : StructCtrlMsg :=
  { rest with
    mtype := m.mtype.code
    reqClineNodeID := .ofNat 8 m.reqClineNodeID
    reqClineAppThreadID := .ofNat 8 m.reqClineAppThreadID
    reqClineAddr := m.reqClineAddr
    reqClineIndex := m.reqClineIndex
    clineTag := m.clineTag
    agentClineNodeID := .ofNat 8 m.agentClineNodeID
    agentClineAddr := m.agentClineAddr
    dirGblockAddr := m.dirGblockAddr
    dirGblockIndex := m.dirGblockIndex
    dirGblockBitmap := fun n => if m.dirGblockBitmap n then 1 else 0
    dirGblockNodeID := .ofNat 8 m.dirGblockNodeID
    dataMsgLength := m.dataMsgLength
    dstNodeId := .ofNat 8 m.dstNodeId
    lockPosition := m.lockPosition }

/-- `Cache::generate_message`, sent by thread `τ` of node `n` about the line in buffer `data`
with number `index`; `junk` is what the local variable `m_send` holds before. -/
def generateMessage (junk : RawMessage) (t : RawMessageType) (n : NodeId) (τ : ThreadId)
    (addr : Block) (data : Addr) (index : BitVec 32) : RawMessage :=
  { junk with
    reqClineNodeID := .ofNat 8 n
    reqClineAppThreadID := .ofNat 8 τ
    reqClineAddr := data
    reqClineIndex := index
    clineTag := addr.getTag
    dirGblockIndex := addr.index
    dirGblockNodeID := .ofNat 8 addr.nodeID
    mtype := t.code }

end Ting
