/-
# `Ting.Hls.CacheCtrl` — the cache controller

`cacheCtrlHLS_from_net` takes the messages that `deparser` did not hand to the directory.
An order to the node's agents is passed to the CPU and acknowledged in the same tick, or,
when the line must also be shipped to the requester, in the next one: the copy register
holds the order meanwhile.  Everything else is an answer to an application thread.
`cacheCtrlHLS_to_net` addresses the requests of the CPU, and `c2hCtrlMsgDeliverHLS` spreads
the orders over the queues of the agents.
-/
import Ting.Hls.Message

namespace Ting

/-- The static registers `reg_copy_flag` and `reg_ctrl_msg`. -/
structure CcRegs where
  regCopyFlag : Bool
  regCtrlMsg : CtrlMsg
  deriving DecidableEq

/-- What a tick that pops a message leaves: the registers, the message for the CPU on
`ctrl_msg_f_CC_t_CMD_out`, and the message, if any, on `ctrl_msg_f_CC_t_CC_out`. -/
structure CcTick where
  regs : CcRegs
  toCpu : CtrlMsg
  out : Option CtrlMsg
  deriving DecidableEq

namespace CtrlMsg

/-- Address a message to the directory of its block. -/
def toHome (m : CtrlMsg) (t : RawMessageType) : CtrlMsg :=
  { m with mtype := t, dstNodeId := m.dirGblockNodeID }

/-- Address a message to the node of the requester. -/
def toRequester (m : CtrlMsg) (t : RawMessageType) : CtrlMsg :=
  { m with mtype := t, dstNodeId := m.reqClineNodeID }

/-- `dst_thread_type = t`. -/
def forThread (m : CtrlMsg) (t : ThreadType) : CtrlMsg :=
  { m with dstThreadType := t }

@[simp] theorem toHome_header (m : CtrlMsg) (t : RawMessageType) :
    (m.toHome t).header = m.header := rfl

@[simp] theorem toRequester_header (m : CtrlMsg) (t : RawMessageType) :
    (m.toRequester t).header = m.header := rfl

@[simp] theorem forThread_header (m : CtrlMsg) (t : ThreadType) :
    (m.forThread t).header = m.header := rfl

end CtrlMsg

/-- The tick of `cacheCtrlHLS_from_net` that pops message `m` (`reg_copy_flag == 0`). -/
def cacheCtrlFromNet (r : CcRegs) (m : CtrlMsg) : CcTick :=
  let sys := m.forThread .sys
  match m.mtype with
  | .dir2AgentWriteSharedNotonly => ⟨r, sys, some (sys.toHome .agent2DirWriteSharedNotonlyAck)⟩
  | .dir2AgentWriteMissShared => ⟨r, sys, some (sys.toHome .agent2DirWriteMissSharedAck)⟩
  | .dir2AgentReadMissDirty =>
      ⟨⟨true, sys⟩, sys, some (sys.toRequester .agent2AppReadMissDirtyAckdata)⟩
  | .dir2AgentWriteMissDirty =>
      ⟨⟨true, sys⟩, sys, some (sys.toRequester .agent2AppWriteMissDirtyAckdata)⟩
  | _ => ⟨r, m.forThread .app, none⟩

/-- The tick of `cacheCtrlHLS_from_net` while `reg_copy_flag == 1`. -/
def cacheCtrlCopy (r : CcRegs) : CcRegs × Option CtrlMsg :=
  let m := r.regCtrlMsg
  match m.mtype with
  | .dir2AgentReadMissDirty =>
      ({ r with regCopyFlag := false }, some (m.toHome .agent2DirReadMissDirtyAckdata))
  | .dir2AgentWriteMissDirty =>
      ({ r with regCopyFlag := false }, some (m.toHome .agent2DirWriteMissDirtyAck))
  | _ => (r, none)

/-- `cacheCtrlHLS_to_net` sends a request of the CPU to the home node of its block. -/
def cacheCtrlToNet (m : CtrlMsg) : CtrlMsg :=
  { m with dstNodeId := m.dirGblockNodeID }

/-- `c2hCtrlMsgDeliverHLS`: the queue of the next system message and the register after it,
for `qNum` configured queues. -/
def sysQueue (qNum : ℕ) (regQId : AgentId) : AgentId × AgentId :=
  if qNum - 1 ≤ regQId.val then (0, 0) else (regQId, regQId + 1)

end Ting
