/-
# `Ting.Hls.DirCtrl` — the directory's transition function

`dirCtrlHLS_to_net` pops one control message together with the entry of its block,
computes the next entry, at most one message for the network, and the contents of three
registers from which, tick by tick, a later loop multicasts invalidations.  `transaction`
is the tick that pops, `copyStep` the tick of the loop; `DirCase` lists everything the first
can do, guards included, and `DirCase.of_transaction` is the only proof that unfolds it.
-/
import Ting.Hls.Message

namespace Ting

/-! ## Rewriting a message -/

namespace CtrlMsg

/-- Turn a message into an answer to the requesting thread. -/
def toApp (m : CtrlMsg) (t : RawMessageType) : CtrlMsg :=
  { m with mtype := t, dstNodeId := m.reqClineNodeID }

/-- Turn a message into an order to the agent of node `n`, whose replica is at `a`. -/
def toAgent (m : CtrlMsg) (t : RawMessageType) (n : NodeId) (a : Addr) : CtrlMsg :=
  { m with mtype := t, agentClineNodeID := n, agentClineAddr := a, dstNodeId := n }

@[simp] theorem toApp_header (m : CtrlMsg) (t : RawMessageType) :
    (m.toApp t).header = m.header := rfl

@[simp] theorem toAgent_header (m : CtrlMsg) (t : RawMessageType) (n : NodeId) (a : Addr) :
    (m.toAgent t n a).header = m.header := rfl

@[simp] theorem toApp_mtype (m : CtrlMsg) (t : RawMessageType) : (m.toApp t).mtype = t := rfl

@[simp] theorem toAgent_mtype (m : CtrlMsg) (t : RawMessageType) (n : NodeId) (a : Addr) :
    (m.toAgent t n a).mtype = t := rfl

@[simp] theorem toApp_dstNodeId (m : CtrlMsg) (t : RawMessageType) :
    (m.toApp t).dstNodeId = m.reqClineNodeID := rfl

@[simp] theorem toAgent_dstNodeId (m : CtrlMsg) (t : RawMessageType) (n : NodeId) (a : Addr) :
    (m.toAgent t n a).dstNodeId = n := rfl

@[simp] theorem toAgent_agentClineNodeID (m : CtrlMsg) (t : RawMessageType) (n : NodeId)
    (a : Addr) : (m.toAgent t n a).agentClineNodeID = n := rfl

end CtrlMsg

/-! ## The entry -/

namespace DirDataE

/-- `dir_gblock_bitmap[n] = v`. -/
def setBit (e : DirDataE) (n : NodeId) (v : Bool) : DirDataE :=
  { e with dirGblockBitmap := Function.update e.dirGblockBitmap n v }

/-- `agent_cline_addr[n] = a`. -/
def setAgentAddr (e : DirDataE) (n : NodeId) (a : Addr) : DirDataE :=
  { e with agentClineAddr := Function.update e.agentClineAddr n a }

end DirDataE

/-- The last index whose bitmap cell is 1: the value the scan over all nodes leaves behind. -/
def lastSet (bitmap : NodeId → Bool) : Option NodeId :=
  (List.finRange 8).foldl (fun acc i => if bitmap i then some i else acc) none

/-! ## The stage -/

/-- The static registers `reg_copy_flag`, `reg_ctrl_msg` and `reg_dir_data`. -/
structure DirRegs where
  regCopyFlag : Bool
  regCtrlMsg : CtrlMsg
  regDirData : DirDataE
  deriving DecidableEq

/-- What a tick that pops a message leaves: the registers, the entry on
`dir_data_f_DC_t_DI_out`, the message on `ctrl_msg_w_f_DC_t_DC_out`, and the message, if
any, on `ctrl_msg_f_DC_t_CMC_out`. -/
structure DirTick where
  regs : DirRegs
  dirData : DirDataE
  ctrlMsgW : CtrlMsg
  out : Option CtrlMsg
  deriving DecidableEq

/-- Keep the registers, write `e` back, send `m`. -/
def DirTick.emit (r : DirRegs) (e : DirDataE) (m : CtrlMsg) : DirTick :=
  ⟨r, e, m, some m⟩

/-- Keep the registers, write `e` back, send nothing. -/
def DirTick.quiet (r : DirRegs) (e : DirDataE) (m : CtrlMsg) : DirTick :=
  ⟨r, e, m, none⟩

/-- What every popped message is given first: the block's address, and the bitmap except
for the two acknowledgements that must keep the one they carry. -/
def latch (m : CtrlMsg) (e : DirDataE) : CtrlMsg :=
  { m with
    dirGblockAddr := e.dirGblockAddr
    dirGblockBitmap :=
      if m.mtype ≠ .agent2DirWriteMissSharedAck ∧ m.mtype ≠ .agent2DirWriteSharedNotonlyAck then
        e.dirGblockBitmap
      else m.dirGblockBitmap }

@[simp] theorem latch_header (m : CtrlMsg) (e : DirDataE) : (latch m e).header = m.header := rfl

@[simp] theorem latch_mtype (m : CtrlMsg) (e : DirDataE) : (latch m e).mtype = m.mtype := rfl

@[simp] theorem latch_reqClineNodeID (m : CtrlMsg) (e : DirDataE) :
    (latch m e).reqClineNodeID = m.reqClineNodeID := rfl

@[simp] theorem latch_agentClineNodeID (m : CtrlMsg) (e : DirDataE) :
    (latch m e).agentClineNodeID = m.agentClineNodeID := rfl

/-- `case R_READ_MISS`. -/
def onReadMiss (r : DirRegs) (m : CtrlMsg) (e : DirDataE) (owner : NodeId) : DirTick :=
  let req := m.reqClineNodeID
  match e.state with
  | .sUnshared | .sShared =>
      if e.dirGblockBitmap req = false then
        .emit r ((({ e with state := .sShared, replicaCount := e.replicaCount + 1 }).setBit
          req true).setAgentAddr req m.reqClineAddr) (m.toApp .dir2AppReadMissAckdata)
      else .emit r e (m.toApp .dir2AppBitmapCheckFail)
  | .sDirty =>
      if e.dirGblockBitmap req = false then
        let e' := ({ e with state := .sToShared }).setAgentAddr req m.reqClineAddr
        .emit r e' (m.toAgent .dir2AgentReadMissDirty owner (e'.agentClineAddr owner))
      else .emit r e (m.toApp .dir2AppBitmapCheckFail)
  | _ => .emit r e (m.toApp .dir2AppMCheckFail)

/-- `case R_WRITE_MISS`.  On a shared block the registers keep the entry and the message as
they are here, before either is changed, and the multicast starts. -/
def onWriteMiss (r : DirRegs) (m : CtrlMsg) (e : DirDataE) (owner : NodeId) : DirTick :=
  let req := m.reqClineNodeID
  match e.state with
  | .sUnshared =>
      if e.dirGblockBitmap req = false then
        .emit r ((({ e with state := .sDirty, replicaCount := 1 }).setBit req true).setAgentAddr
          req m.reqClineAddr) (m.toApp .dir2AppWriteMissAckdata)
      else .emit r e (m.toApp .dir2AppBitmapCheckFail)
  | .sShared =>
      if e.dirGblockBitmap req = false then
        .emit ⟨true, m, e⟩ (({ e with state := .sToDirty }).setAgentAddr req m.reqClineAddr)
          (m.toApp .dir2AppWriteMissShareddata)
      else .emit r e (m.toApp .dir2AppBitmapCheckFail)
  | .sDirty =>
      if e.dirGblockBitmap req = false then
        let e' := ({ e with state := .sToDirty }).setAgentAddr req m.reqClineAddr
        .emit r e' (m.toAgent .dir2AgentWriteMissDirty owner (e'.agentClineAddr owner))
      else .emit r e (m.toApp .dir2AppBitmapCheckFail)
  | _ => .emit r e (m.toApp .dir2AppMCheckFail)

/-- `case R_WRITE_SHARED`. -/
def onWriteShared (r : DirRegs) (m : CtrlMsg) (e : DirDataE) : DirTick :=
  let req := m.reqClineNodeID
  match e.state with
  | .sShared =>
      if e.dirGblockBitmap req = false then .emit r e (m.toApp .dir2AppBitmapCheckFail)
      else if e.replicaCount > 1 then .quiet ⟨true, m, e⟩ { e with state := .sToDirty } m
      else .emit r (({ e with state := .sDirty, replicaCount := 1 }).setBit req true)
        (m.toApp .dir2AppWriteSharedOnlyack)
  | _ => .emit r e (m.toApp .dir2AppMCheckFail)

/-- `case R_EVICT_SHARED`. -/
def onEvictShared (r : DirRegs) (m : CtrlMsg) (e : DirDataE) : DirTick :=
  let req := m.reqClineNodeID
  match e.state with
  | .sShared =>
      if e.dirGblockBitmap req = false then .emit r e (m.toApp .dir2AppBitmapCheckFail)
      else
        let st := if e.replicaCount = 1 then RawState.sUnshared else .sShared
        .emit r (({ e with state := st, replicaCount := e.replicaCount - 1 }).setBit req false)
          (m.toApp .dir2AppEvictSharedAck)
  | _ => .emit r e (m.toApp .dir2AppMCheckFail)

/-- `case R_EVICT_DIRTY`. -/
def onEvictDirty (r : DirRegs) (m : CtrlMsg) (e : DirDataE) : DirTick :=
  let req := m.reqClineNodeID
  match e.state with
  | .sDirty =>
      if e.dirGblockBitmap req = false then .emit r e (m.toApp .dir2AppBitmapCheckFail)
      else .emit r (({ e with state := .sUnshared, replicaCount := e.replicaCount - 1 }).setBit
        req false) (m.toApp .dir2AppEvictDirtyAck)
  | _ => .emit r e (m.toApp .dir2AppMCheckFail)

/-- `case AGENT_2_DIR_READ_MISS_DIRTY_ACKDATA`. -/
def onReadMissDirtyAckdata (r : DirRegs) (m : CtrlMsg) (e : DirDataE) : DirTick :=
  match e.state with
  | .sToShared =>
      .quiet r (({ e with state := .sShared, replicaCount := e.replicaCount + 1 }).setBit
        m.reqClineNodeID true) m
  | _ => .quiet r e m

/-- `case AGENT_2_DIR_WRITE_MISS_DIRTY_ACK`. -/
def onWriteMissDirtyAck (r : DirRegs) (m : CtrlMsg) (e : DirDataE) : DirTick :=
  match e.state with
  | .sToDirty =>
      .quiet r ((({ e with state := .sDirty, replicaCount := 1 }).setBit
        m.reqClineNodeID true).setBit m.agentClineNodeID false) m
  | _ => .quiet r e m

/-- `case AGENT_2_DIR_WRITE_MISS_SHARED_ACK`: the last one finds a count of 1 and leaves it. -/
def onWriteMissSharedAck (r : DirRegs) (m : CtrlMsg) (e : DirDataE) : DirTick :=
  match e.state with
  | .sToDirty =>
      let e' := (e.setBit m.reqClineNodeID true).setBit m.agentClineNodeID false
      if e.replicaCount = 1 then
        .emit r { e' with state := .sDirty } (m.toApp .dir2AppWriteMissSharedAggackAck)
      else .quiet r { e' with replicaCount := e.replicaCount - 1 } m
  | _ => .quiet r e m

/-- `case AGENT_2_DIR_WRITE_SHARED_NOTONLY_ACK`: here the requester is counted too, so the
last one finds a count of 2 and sets it to 1. -/
def onWriteSharedNotonlyAck (r : DirRegs) (m : CtrlMsg) (e : DirDataE) : DirTick :=
  match e.state with
  | .sToDirty =>
      let e' := (e.setBit m.reqClineNodeID true).setBit m.agentClineNodeID false
      if e.replicaCount = 2 then
        .emit r { e' with state := .sDirty, replicaCount := 1 }
          (m.toApp .dir2AppWriteSharedNotonlyAggackAck)
      else .quiet r { e' with replicaCount := e.replicaCount - 1 } m
  | _ => .quiet r e m

/-- The tick of `dirCtrlHLS_to_net` that pops message `m` with entry `e`
(`reg_copy_flag == 0`). -/
def transaction (r : DirRegs) (m : CtrlMsg) (e : DirDataE) : DirTick :=
  let m' := latch m e
  let owner := (lastSet e.dirGblockBitmap).getD 0
  match m.mtype with
  | .rReadMiss => onReadMiss r m' e owner
  | .rWriteMiss => onWriteMiss r m' e owner
  | .rWriteShared => onWriteShared r m' e
  | .rEvictShared => onEvictShared r m' e
  | .rEvictDirty => onEvictDirty r m' e
  | .agent2DirReadMissDirtyAckdata => onReadMissDirtyAckdata r m' e
  | .agent2DirWriteMissDirtyAck => onWriteMissDirtyAck r m' e
  | .agent2DirWriteMissSharedAck => onWriteMissSharedAck r m' e
  | .agent2DirWriteSharedNotonlyAck => onWriteSharedNotonlyAck r m' e
  | _ => .quiet r e m'

/-- The tick of `dirCtrlHLS_to_net` while `reg_copy_flag == 1`: send the saved message to
the last node left in the saved bitmap and clear its cell.  The requester of an upgrade is
passed over. -/
def copyStep (r : DirRegs) : DirRegs × Option CtrlMsg :=
  let m := r.regCtrlMsg
  let e := r.regDirData
  match m.mtype, e.state with
  | .rWriteMiss, .sShared =>
      match lastSet e.dirGblockBitmap with
      | none => ({ r with regCopyFlag := false }, none)
      | some n => ({ r with regDirData := e.setBit n false },
          some (m.toAgent .dir2AgentWriteMissShared n (e.agentClineAddr n)))
  | .rWriteShared, .sShared =>
      match lastSet e.dirGblockBitmap with
      | none => ({ r with regCopyFlag := false }, none)
      | some n =>
          if n = m.reqClineNodeID then ({ r with regDirData := e.setBit n false }, none)
          else ({ r with regDirData := e.setBit n false },
            some (m.toAgent .dir2AgentWriteSharedNotonly n (e.agentClineAddr n)))
  | _, _ => (r, none)

/-! ## The scan over the bitmap -/

theorem lastSet_eq_find (bitmap : NodeId → Bool) :
    lastSet bitmap = (List.finRange 8).reverse.find? (fun i => bitmap i) := by
  unfold lastSet
  generalize List.finRange 8 = l
  suffices h : ∀ acc : Option NodeId,
      l.foldl (fun acc i => if bitmap i then some i else acc) acc
        = (l.reverse.find? (fun i => bitmap i)).or acc by
    simpa using h none
  induction l with
  | nil => intro acc; rfl
  | cons i l ih =>
      intro acc
      rw [List.foldl_cons, ih, List.reverse_cons, List.find?_append, Option.or_assoc]
      congr 1
      cases h : bitmap i <;> simp [h]

/-- The scan ends on a node whose cell is 1. -/
theorem lastSet_mem {bitmap : NodeId → Bool} {n : NodeId} (h : lastSet bitmap = some n) :
    bitmap n = true := by
  rw [lastSet_eq_find] at h
  exact List.find?_some h

/-- The scan finds nothing exactly when every cell is 0. -/
theorem lastSet_none {bitmap : NodeId → Bool} :
    lastSet bitmap = none ↔ ∀ n, bitmap n = false := by
  rw [lastSet_eq_find, List.find?_eq_none]
  constructor
  · intro h n
    simpa using h n (by simp)
  · intro h n _
    simp [h n]

/-- On a bitmap with one cell set the scan finds that cell. -/
theorem lastSet_eq {bitmap : NodeId → Bool} {o : NodeId} (ho : bitmap o = true)
    (huniq : ∀ n, bitmap n = true → n = o) : lastSet bitmap = some o := by
  cases h : lastSet bitmap with
  | none => simp [lastSet_none.mp h o] at ho
  | some n => rw [huniq n (lastSet_mem h)]

/-! ## Everything a transaction can do -/

/-- The states in which a request is served; in the others it bounces with `M_CHECK_FAIL`. -/
def serves : RawMessageType → RawState → Bool
  | .rReadMiss, .sUnshared | .rReadMiss, .sShared | .rReadMiss, .sDirty => true
  | .rWriteMiss, .sUnshared | .rWriteMiss, .sShared | .rWriteMiss, .sDirty => true
  | .rWriteShared, .sShared | .rEvictShared, .sShared | .rEvictDirty, .sDirty => true
  | _, _ => false

/-- The value of the requester's own cell that a request presupposes: 0 for a miss, 1 for an
upgrade or an eviction.  Otherwise it bounces with `BITMAP_CHECK_FAIL`. -/
def wantsBit : RawMessageType → Bool
  | .rReadMiss | .rWriteMiss => false
  | _ => true

/-- The state in which an acknowledgement is consumed. -/
def awaitedIn : RawMessageType → Option RawState
  | .agent2DirReadMissDirtyAckdata => some .sToShared
  | .agent2DirWriteMissDirtyAck | .agent2DirWriteMissSharedAck
  | .agent2DirWriteSharedNotonlyAck => some .sToDirty
  | _ => none

/-- The results of `transaction r m e`, one constructor for each thing it can do. -/
inductive DirCase (r : DirRegs) (m : CtrlMsg) (e : DirDataE) : DirTick → Prop
  | mCheckFail (hm : m.mtype.isRequest) (hs : serves m.mtype e.state = false) :
      DirCase r m e (.emit r e ((latch m e).toApp .dir2AppMCheckFail))
  | bitmapCheckFail (hm : m.mtype.isRequest) (hs : serves m.mtype e.state)
      (hb : e.dirGblockBitmap m.reqClineNodeID ≠ wantsBit m.mtype) :
      DirCase r m e (.emit r e ((latch m e).toApp .dir2AppBitmapCheckFail))
  | readMiss (hm : m.mtype = .rReadMiss) (hs : e.state = .sUnshared ∨ e.state = .sShared)
      (hb : e.dirGblockBitmap m.reqClineNodeID = false) :
      DirCase r m e (.emit r
        ((({ e with state := .sShared, replicaCount := e.replicaCount + 1 }).setBit
          m.reqClineNodeID true).setAgentAddr m.reqClineNodeID m.reqClineAddr)
        ((latch m e).toApp .dir2AppReadMissAckdata))
  | readMissDirty (hm : m.mtype = .rReadMiss) (hs : e.state = .sDirty)
      (hb : e.dirGblockBitmap m.reqClineNodeID = false) (a : Addr) :
      DirCase r m e (.emit r
        (({ e with state := .sToShared }).setAgentAddr m.reqClineNodeID m.reqClineAddr)
        ((latch m e).toAgent .dir2AgentReadMissDirty ((lastSet e.dirGblockBitmap).getD 0) a))
  | writeMiss (hm : m.mtype = .rWriteMiss) (hs : e.state = .sUnshared)
      (hb : e.dirGblockBitmap m.reqClineNodeID = false) :
      DirCase r m e (.emit r
        ((({ e with state := .sDirty, replicaCount := 1 }).setBit
          m.reqClineNodeID true).setAgentAddr m.reqClineNodeID m.reqClineAddr)
        ((latch m e).toApp .dir2AppWriteMissAckdata))
  | writeMissShared (hm : m.mtype = .rWriteMiss) (hs : e.state = .sShared)
      (hb : e.dirGblockBitmap m.reqClineNodeID = false) :
      DirCase r m e (.emit ⟨true, latch m e, e⟩
        (({ e with state := .sToDirty }).setAgentAddr m.reqClineNodeID m.reqClineAddr)
        ((latch m e).toApp .dir2AppWriteMissShareddata))
  | writeMissDirty (hm : m.mtype = .rWriteMiss) (hs : e.state = .sDirty)
      (hb : e.dirGblockBitmap m.reqClineNodeID = false) (a : Addr) :
      DirCase r m e (.emit r
        (({ e with state := .sToDirty }).setAgentAddr m.reqClineNodeID m.reqClineAddr)
        ((latch m e).toAgent .dir2AgentWriteMissDirty ((lastSet e.dirGblockBitmap).getD 0) a))
  | writeSharedNotonly (hm : m.mtype = .rWriteShared) (hs : e.state = .sShared)
      (hb : e.dirGblockBitmap m.reqClineNodeID = true) (hc : 1 < e.replicaCount) :
      DirCase r m e (.quiet ⟨true, latch m e, e⟩ { e with state := .sToDirty } (latch m e))
  | writeSharedOnly (hm : m.mtype = .rWriteShared) (hs : e.state = .sShared)
      (hb : e.dirGblockBitmap m.reqClineNodeID = true) (hc : ¬ 1 < e.replicaCount) :
      DirCase r m e (.emit r
        (({ e with state := .sDirty, replicaCount := 1 }).setBit m.reqClineNodeID true)
        ((latch m e).toApp .dir2AppWriteSharedOnlyack))
  | evictShared (hm : m.mtype = .rEvictShared) (hs : e.state = .sShared)
      (hb : e.dirGblockBitmap m.reqClineNodeID = true) :
      DirCase r m e (.emit r
        (({ e with
            state := if e.replicaCount = 1 then .sUnshared else .sShared
            replicaCount := e.replicaCount - 1 }).setBit m.reqClineNodeID false)
        ((latch m e).toApp .dir2AppEvictSharedAck))
  | evictDirty (hm : m.mtype = .rEvictDirty) (hs : e.state = .sDirty)
      (hb : e.dirGblockBitmap m.reqClineNodeID = true) :
      DirCase r m e (.emit r
        (({ e with state := .sUnshared, replicaCount := e.replicaCount - 1 }).setBit
          m.reqClineNodeID false)
        ((latch m e).toApp .dir2AppEvictDirtyAck))
  | readMissDirtyAckdata (hm : m.mtype = .agent2DirReadMissDirtyAckdata)
      (hs : e.state = .sToShared) :
      DirCase r m e (.quiet r
        (({ e with state := .sShared, replicaCount := e.replicaCount + 1 }).setBit
          m.reqClineNodeID true) (latch m e))
  | writeMissDirtyAck (hm : m.mtype = .agent2DirWriteMissDirtyAck) (hs : e.state = .sToDirty) :
      DirCase r m e (.quiet r
        ((({ e with state := .sDirty, replicaCount := 1 }).setBit
          m.reqClineNodeID true).setBit m.agentClineNodeID false) (latch m e))
  | sharedAckLast (hm : m.mtype = .agent2DirWriteMissSharedAck) (hs : e.state = .sToDirty)
      (hc : e.replicaCount = 1) :
      DirCase r m e (.emit r
        { (e.setBit m.reqClineNodeID true).setBit m.agentClineNodeID false with state := .sDirty }
        ((latch m e).toApp .dir2AppWriteMissSharedAggackAck))
  | sharedAckMore (hm : m.mtype = .agent2DirWriteMissSharedAck) (hs : e.state = .sToDirty)
      (hc : e.replicaCount ≠ 1) :
      DirCase r m e (.quiet r
        { (e.setBit m.reqClineNodeID true).setBit m.agentClineNodeID false with
          replicaCount := e.replicaCount - 1 } (latch m e))
  | notonlyAckLast (hm : m.mtype = .agent2DirWriteSharedNotonlyAck) (hs : e.state = .sToDirty)
      (hc : e.replicaCount = 2) :
      DirCase r m e (.emit r
        { (e.setBit m.reqClineNodeID true).setBit m.agentClineNodeID false with
          state := .sDirty, replicaCount := 1 }
        ((latch m e).toApp .dir2AppWriteSharedNotonlyAggackAck))
  | notonlyAckMore (hm : m.mtype = .agent2DirWriteSharedNotonlyAck) (hs : e.state = .sToDirty)
      (hc : e.replicaCount ≠ 2) :
      DirCase r m e (.quiet r
        { (e.setBit m.reqClineNodeID true).setBit m.agentClineNodeID false with
          replicaCount := e.replicaCount - 1 } (latch m e))
  | ignored (hm : m.mtype.isRequest = false) (hs : awaitedIn m.mtype ≠ some e.state) :
      DirCase r m e (.quiet r e (latch m e))

section Cases

variable {r : DirRegs} {m : CtrlMsg} {e : DirDataE}

/-- A request finding a state in which it is not served. -/
theorem DirCase.bounce {s : RawState} (hm : m.mtype.isRequest) (he : e.state = s)
    (hs : serves m.mtype s = false) :
    DirCase r m e (.emit r e ((latch m e).toApp .dir2AppMCheckFail)) :=
  .mCheckFail hm (he ▸ hs)

/-- A request finding its requester's cell at the wrong value. -/
theorem DirCase.mismatch {s : RawState} (hm : m.mtype.isRequest) (he : e.state = s)
    (hs : serves m.mtype s) (hb : e.dirGblockBitmap m.reqClineNodeID ≠ wantsBit m.mtype) :
    DirCase r m e (.emit r e ((latch m e).toApp .dir2AppBitmapCheckFail)) :=
  .bitmapCheckFail hm (he ▸ hs) hb

theorem DirCase.of_readMiss (hm : m.mtype = .rReadMiss) :
    DirCase r m e (onReadMiss r (latch m e) e ((lastSet e.dirGblockBitmap).getD 0)) := by
  have hq : m.mtype.isRequest := by rw [hm]; rfl
  by_cases hb : e.dirGblockBitmap m.reqClineNodeID = false
  · cases hs : e.state <;> simp only [onReadMiss, hs, latch_reqClineNodeID, hb, if_true]
    case sUnshared => exact .readMiss hm (.inl hs) hb
    case sShared => exact .readMiss hm (.inr hs) hb
    case sDirty => exact .readMissDirty hm hs hb _
    all_goals exact .bounce hq hs (by rw [hm]; rfl)
  · have hw : e.dirGblockBitmap m.reqClineNodeID ≠ wantsBit m.mtype := by rw [hm]; exact hb
    cases hs : e.state <;> simp only [onReadMiss, hs, latch_reqClineNodeID, hb]
    case sUnshared | sShared | sDirty => exact .mismatch hq hs (by rw [hm]; rfl) hw
    all_goals exact .bounce hq hs (by rw [hm]; rfl)

theorem DirCase.of_writeMiss (hm : m.mtype = .rWriteMiss) :
    DirCase r m e (onWriteMiss r (latch m e) e ((lastSet e.dirGblockBitmap).getD 0)) := by
  have hq : m.mtype.isRequest := by rw [hm]; rfl
  by_cases hb : e.dirGblockBitmap m.reqClineNodeID = false
  · cases hs : e.state <;> simp only [onWriteMiss, hs, latch_reqClineNodeID, hb, if_true]
    case sUnshared => exact .writeMiss hm hs hb
    case sShared => exact .writeMissShared hm hs hb
    case sDirty => exact .writeMissDirty hm hs hb _
    all_goals exact .bounce hq hs (by rw [hm]; rfl)
  · have hw : e.dirGblockBitmap m.reqClineNodeID ≠ wantsBit m.mtype := by rw [hm]; exact hb
    cases hs : e.state <;> simp only [onWriteMiss, hs, latch_reqClineNodeID, hb]
    case sUnshared | sShared | sDirty => exact .mismatch hq hs (by rw [hm]; rfl) hw
    all_goals exact .bounce hq hs (by rw [hm]; rfl)

theorem DirCase.of_writeShared (hm : m.mtype = .rWriteShared) :
    DirCase r m e (onWriteShared r (latch m e) e) := by
  have hq : m.mtype.isRequest := by rw [hm]; rfl
  by_cases hb : e.dirGblockBitmap m.reqClineNodeID = false
  · cases hs : e.state <;> simp only [onWriteShared, hs, latch_reqClineNodeID, hb, if_true]
    case sShared => exact .mismatch hq hs (by rw [hm]; rfl) (by rw [hb, hm]; decide)
    all_goals exact .bounce hq hs (by rw [hm]; rfl)
  · have hb' := Bool.eq_true_of_not_eq_false hb
    cases hs : e.state <;> simp only [onWriteShared, hs, latch_reqClineNodeID, hb, gt_iff_lt]
    case sShared =>
      by_cases hc : 1 < e.replicaCount <;> simp only [hc, if_true]
      · exact .writeSharedNotonly hm hs hb' hc
      · exact .writeSharedOnly hm hs hb' hc
    all_goals exact .bounce hq hs (by rw [hm]; rfl)

theorem DirCase.of_evictShared (hm : m.mtype = .rEvictShared) :
    DirCase r m e (onEvictShared r (latch m e) e) := by
  have hq : m.mtype.isRequest := by rw [hm]; rfl
  by_cases hb : e.dirGblockBitmap m.reqClineNodeID = false
  · cases hs : e.state <;> simp only [onEvictShared, hs, latch_reqClineNodeID, hb, if_true]
    case sShared => exact .mismatch hq hs (by rw [hm]; rfl) (by rw [hb, hm]; decide)
    all_goals exact .bounce hq hs (by rw [hm]; rfl)
  · cases hs : e.state <;> simp only [onEvictShared, hs, latch_reqClineNodeID, hb]
    case sShared => exact .evictShared hm hs (Bool.eq_true_of_not_eq_false hb)
    all_goals exact .bounce hq hs (by rw [hm]; rfl)

theorem DirCase.of_evictDirty (hm : m.mtype = .rEvictDirty) :
    DirCase r m e (onEvictDirty r (latch m e) e) := by
  have hq : m.mtype.isRequest := by rw [hm]; rfl
  by_cases hb : e.dirGblockBitmap m.reqClineNodeID = false
  · cases hs : e.state <;> simp only [onEvictDirty, hs, latch_reqClineNodeID, hb, if_true]
    case sDirty => exact .mismatch hq hs (by rw [hm]; rfl) (by rw [hb, hm]; decide)
    all_goals exact .bounce hq hs (by rw [hm]; rfl)
  · cases hs : e.state <;> simp only [onEvictDirty, hs, latch_reqClineNodeID, hb]
    case sDirty => exact .evictDirty hm hs (Bool.eq_true_of_not_eq_false hb)
    all_goals exact .bounce hq hs (by rw [hm]; rfl)

/-- An acknowledgement in a state that does not await it is dropped. -/
theorem DirCase.dropped {s : RawState} (he : e.state = s) (hm : m.mtype.isRequest = false)
    (hs : awaitedIn m.mtype ≠ some s) : DirCase r m e (.quiet r e (latch m e)) :=
  .ignored hm (he ▸ hs)

theorem DirCase.of_readMissDirtyAckdata (hm : m.mtype = .agent2DirReadMissDirtyAckdata) :
    DirCase r m e (onReadMissDirtyAckdata r (latch m e) e) := by
  unfold onReadMissDirtyAckdata
  cases hs : e.state <;> simp only [latch_reqClineNodeID]
  case sToShared => exact .readMissDirtyAckdata hm hs
  all_goals exact .dropped hs (by rw [hm]; rfl) (by rw [hm]; decide)

theorem DirCase.of_writeMissDirtyAck (hm : m.mtype = .agent2DirWriteMissDirtyAck) :
    DirCase r m e (onWriteMissDirtyAck r (latch m e) e) := by
  unfold onWriteMissDirtyAck
  cases hs : e.state <;> simp only [latch_reqClineNodeID, latch_agentClineNodeID]
  case sToDirty => exact .writeMissDirtyAck hm hs
  all_goals exact .dropped hs (by rw [hm]; rfl) (by rw [hm]; decide)

theorem DirCase.of_writeMissSharedAck (hm : m.mtype = .agent2DirWriteMissSharedAck) :
    DirCase r m e (onWriteMissSharedAck r (latch m e) e) := by
  unfold onWriteMissSharedAck
  cases hs : e.state <;> simp only [latch_reqClineNodeID, latch_agentClineNodeID]
  case sToDirty =>
    by_cases hc : e.replicaCount = 1 <;> simp only [hc, if_true, if_false]
    · exact .sharedAckLast hm hs hc
    · exact .sharedAckMore hm hs hc
  all_goals exact .dropped hs (by rw [hm]; rfl) (by rw [hm]; decide)

theorem DirCase.of_writeSharedNotonlyAck (hm : m.mtype = .agent2DirWriteSharedNotonlyAck) :
    DirCase r m e (onWriteSharedNotonlyAck r (latch m e) e) := by
  unfold onWriteSharedNotonlyAck
  cases hs : e.state <;> simp only [latch_reqClineNodeID, latch_agentClineNodeID]
  case sToDirty =>
    by_cases hc : e.replicaCount = 2 <;> simp only [hc, if_true, if_false]
    · exact .notonlyAckLast hm hs hc
    · exact .notonlyAckMore hm hs hc
  all_goals exact .dropped hs (by rw [hm]; rfl) (by rw [hm]; decide)

/-- `DirCase` covers `transaction`. -/
theorem DirCase.of_transaction (r : DirRegs) (m : CtrlMsg) (e : DirDataE) :
    DirCase r m e (transaction r m e) := by
  unfold transaction
  cases hm : m.mtype
  case rReadMiss => exact .of_readMiss hm
  case rWriteMiss => exact .of_writeMiss hm
  case rWriteShared => exact .of_writeShared hm
  case rEvictShared => exact .of_evictShared hm
  case rEvictDirty => exact .of_evictDirty hm
  case agent2DirReadMissDirtyAckdata => exact .of_readMissDirtyAckdata hm
  case agent2DirWriteMissDirtyAck => exact .of_writeMissDirtyAck hm
  case agent2DirWriteMissSharedAck => exact .of_writeMissSharedAck hm
  case agent2DirWriteSharedNotonlyAck => exact .of_writeSharedNotonlyAck hm
  all_goals exact .ignored (by rw [hm]; rfl) (by rw [hm]; nofun)

end Cases

end Ting
