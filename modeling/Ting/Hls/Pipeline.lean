/-
# `Ting.Hls.Pipeline` — the stages of the directory

A message for a block locks the block, its entry is read from memory, `dirCtrlHLS_to_net` changes
it, it is written back, and when the write is acknowledged the lock is released.  Six stages do
this, each on its own clock ticks, with streams between them.

The lock table has a bucket for each value of the low byte of a block's index, and a bucket has
`LOCK_BKT_SIZE` slots, which is one.  A message that finds its bucket taken waits in a register,
and no other message is taken up before it.  `dirCtrlHLS_from_net` reads a completion and a message
in turn.

An entry is two words in memory: the addresses of the replicas are the second, everything else the
first.  A word is written here as the entry that it is one half of.  The memory answers each of its
ports in order; a write that is under way has no effect on reads.
-/
import Ting.Hls.DirStage
import Ting.Lib.Transition

namespace Ting

/-- `0xffffffff`: a free slot of the lock table. -/
def freeSlot : BlockIndex := 0xffffffff

/-- `LOCK_BKT_SIZE`. -/
def lockBktSize : ℕ := 1

/-- The bucket of a message: the low `LOCK_BKT_WIDTH` bits of the index of its block. -/
def CtrlMsg.bucketId (m : CtrlMsg) : BitVec 8 := m.dirGblockIndex.setWidth 8

/-- `dir_gblock_index * 128`, on a bus of 34 bits. -/
def ddrAddr (i : BlockIndex) : BitVec 34 := i.setWidth 34 * 128

/-- The entry made of two words. -/
def joinWords (part1 part2 : DirDataE) : DirDataE :=
  { part1 with agentClineAddr := part2.agentClineAddr }

/-- The stages of a directory with their streams, in the order in which a message goes through
them.  `acquired` and `released` are histories: the messages that went on with a lock, and those
whose completion was read, `INIT_DIR` aside.  `outside` says that a completion named a slot that the
table does not have. -/
structure DirPipeline where
  /-- `ctrl_msg_f_D_t_DC_in`. -/
  ctrlMsgIn : List CtrlMsg
  regInitFlag : Bool
  regRetryFlag : Bool
  regRetryCtrlMsg : CtrlMsg
  regGbIndexArr : BitVec 8 → BlockIndex
  regSourceFlag : Bool
  /-- `dir_cmd_f_DC_t_DI`. -/
  dirCmd : List BlockIndex
  ddrAr : List (BitVec 34)
  ddrR : List DirDataE
  regEndFlagR : Bool
  regDirDataR : DirDataE
  stage : DirStage
  regEndFlagW : Bool
  regDirDataW : DirDataE
  ddrAw : List (BitVec 34)
  ddrW : List DirDataE
  ddrB : List (BitVec 6)
  /-- `dir_ack_f_DI_t_DC`. -/
  dirAck : List (BitVec 8)
  mem : BitVec 34 → DirDataE
  acquired : List CtrlMsg
  released : List CtrlMsg
  outside : Bool

namespace DirPipeline

/-! ## `dirCtrlHLS_from_net` -/

/-- A message that has the lock goes on, with a command to read its entry. -/
def sendOn (s : DirPipeline) (m : CtrlMsg) : DirPipeline :=
  { s with
    regRetryFlag := false
    regGbIndexArr :=
      Function.update s.regGbIndexArr m.bucketId m.dirGblockIndex
    stage := { s.stage with ctrlMsgRIn := s.stage.ctrlMsgRIn ++ [m] }
    dirCmd := s.dirCmd ++ [m.dirGblockIndex]
    acquired := s.acquired ++ [m] }

/-- A message asks for the lock of its block: no slot of the bucket may have its index
(`tmp_conflict_flag`), and one must be free (`tmp_free_slot_pos`). -/
def lock (s : DirPipeline) (m : CtrlMsg) : DirPipeline :=
  if m.dirGblockIndex = s.regGbIndexArr m.bucketId ∨
      s.regGbIndexArr m.bucketId ≠ freeSlot then
    { s with regRetryFlag := true, regRetryCtrlMsg := m }
  else s.sendOn { m with lockPosition := 0 }

/-- The completion of `m` is read. -/
def release (s : DirPipeline) (m : CtrlMsg) : DirPipeline :=
  let s := { s with
    released := s.released ++ if m.mtype = RawMessageType.initDir then [] else [m] }
  if m.lockPosition.toNat < lockBktSize then
    { s with regGbIndexArr :=
        Function.update s.regGbIndexArr m.bucketId freeSlot }
  else { s with outside := true }

/-- A tick that looks for a completion: an acknowledgement together with its message. -/
def fromNetAck (s : DirPipeline) : DirPipeline :=
  match s.dirAck, s.stage.ctrlMsgWOut with
  | _ :: acks, m :: ms => release { s with
      regSourceFlag := false
      dirAck := acks
      stage := { s.stage with ctrlMsgWOut := ms } } m
  | _, _ => { s with regSourceFlag := false }

/-- A tick that looks for a message, in the retry register or on the input stream. -/
def fromNetMsg (s : DirPipeline) : DirPipeline :=
  if s.regRetryFlag then lock { s with regSourceFlag := true } s.regRetryCtrlMsg
  else
    match s.ctrlMsgIn with
    | m :: ms => lock { s with regSourceFlag := true, ctrlMsgIn := ms } m
    | [] => { s with regSourceFlag := true }

/-- A tick of `dirCtrlHLS_from_net`. -/
def dirCtrlFromNet (s : DirPipeline) : DirPipeline :=
  if s.regInitFlag then { s with regGbIndexArr := fun _ => freeSlot, regInitFlag := false }
  else if s.regSourceFlag then s.fromNetAck
  else s.fromNetMsg

/-! ## The memory and its ports -/

/-- A tick of `ddrInstHLS_ar`. -/
def ddrInstAr (s : DirPipeline) : DirPipeline :=
  match s.dirCmd with
  | i :: is => { s with dirCmd := is, ddrAr := s.ddrAr ++ [ddrAddr i] }
  | [] => s

/-- The memory answers the oldest read, with both words. -/
def ddrRead (s : DirPipeline) : DirPipeline :=
  match s.ddrAr with
  | a :: as => { s with ddrAr := as, ddrR := s.ddrR ++ [s.mem a, s.mem a] }
  | [] => s

/-- A tick of `ddrInstHLS_r`. -/
def ddrInstR (s : DirPipeline) : DirPipeline :=
  match s.ddrR with
  | w :: ws =>
      if s.regEndFlagR then
        { s with
          ddrR := ws
          regDirDataR := joinWords w s.regDirDataR
          regEndFlagR := false }
      else
        { s with
          ddrR := ws
          stage := { s.stage with
            dirDataIn := s.stage.dirDataIn ++ [joinWords s.regDirDataR w] }
          regEndFlagR := true }
  | [] => s

/-- A tick of `ddrInstHLS_aw_w`. -/
def ddrInstAwW (s : DirPipeline) : DirPipeline :=
  if s.regEndFlagW then
    match s.stage.dirDataOut with
    | e :: es => { s with
        stage := { s.stage with dirDataOut := es }
        ddrAw := s.ddrAw ++ [ddrAddr e.dirGblockIndex]
        ddrW := s.ddrW ++ [e]
        regDirDataW := e
        regEndFlagW := false }
    | [] => s
  else { s with ddrW := s.ddrW ++ [s.regDirDataW], regEndFlagW := true }

/-- The memory carries out the oldest write and acknowledges it. -/
def ddrWrite (s : DirPipeline) (bid : BitVec 6) : DirPipeline :=
  match s.ddrAw, s.ddrW with
  | a :: as, w :: w' :: ws => { s with
      ddrAw := as
      ddrW := ws
      mem := Function.update s.mem a (joinWords w w')
      ddrB := s.ddrB ++ [bid] }
  | _, _ => s

/-- A tick of `ddrInstHLS_b`. -/
def ddrInstB (s : DirPipeline) : DirPipeline :=
  match s.ddrB with
  | b :: bs => { s with ddrB := bs, dirAck := s.dirAck ++ [b.setWidth 8] }
  | [] => s

/-! ## Runs -/

/-- A tick of a stage, a step of the memory, or an arrival. -/
inductive Action
  | arrive (m : CtrlMsg)
  | init (d : DirData)
  | fromNet
  | ar
  | read
  | r
  | toNet (u : Uninit)
  | awW
  | write (bid : BitVec 6)
  | b

/-- What is sent to the directory is a request or an acknowledgement. -/
def step (a : Action) (s : DirPipeline) : Option DirPipeline :=
  match a with
  | .arrive m => if m.mtype.toDir then some { s with ctrlMsgIn := s.ctrlMsgIn ++ [m] } else none
  | .init d => some { s with
      stage := { s.stage with dirDataInit := s.stage.dirDataInit ++ [d] } }
  | .fromNet => some s.dirCtrlFromNet
  | .ar => some s.ddrInstAr
  | .read => some s.ddrRead
  | .r => some s.ddrInstR
  | .toNet u => some { s with stage := s.stage.tick u }
  | .awW => some s.ddrInstAwW
  | .write bid => some (s.ddrWrite bid)
  | .b => some s.ddrInstB

/-- After a reset: the streams are empty and the flags have their initial values. -/
structure Init (s : DirPipeline) : Prop where
  ctrlMsgIn : s.ctrlMsgIn = []
  initFlag : s.regInitFlag = true
  retryFlag : s.regRetryFlag = false
  sourceFlag : s.regSourceFlag = false
  dirCmd : s.dirCmd = []
  ddrAr : s.ddrAr = []
  ddrR : s.ddrR = []
  endFlagR : s.regEndFlagR = true
  copyFlag : s.stage.regs.regCopyFlag = false
  dirDataInit : s.stage.dirDataInit = []
  ctrlMsgRIn : s.stage.ctrlMsgRIn = []
  dirDataIn : s.stage.dirDataIn = []
  ctrlMsgOut : s.stage.ctrlMsgOut = []
  dirDataOut : s.stage.dirDataOut = []
  ctrlMsgWOut : s.stage.ctrlMsgWOut = []
  endFlagW : s.regEndFlagW = true
  ddrAw : s.ddrAw = []
  ddrW : s.ddrW = []
  ddrB : s.ddrB = []
  dirAck : s.dirAck = []
  acquired : s.acquired = []
  released : s.released = []
  outside : s.outside = false

end DirPipeline

/-- The directory as a transition system. -/
def dirPipeline : TransitionSystem DirPipeline DirPipeline.Action :=
  ⟨DirPipeline.Init, DirPipeline.step⟩

end Ting
