/-
# `Ting.Hls.DirStage` — the directory with its streams

`dirCtrlHLS_to_net` as the hardware runs it: once per clock tick, on whatever its streams hold.  An
`INIT_DIR` message goes before everything else; without one the stage continues its multicast if it
is in the middle of one, and takes up the next message together with the entry of its block if it
is not.

The control message that accompanies an initialised entry to memory is built from local variables
that are only partly assigned, and so is the entry; what the others hold is an argument of the tick.
-/
import Ting.Hls.DirCtrl

namespace Ting

/-- `struct_dir_data`, as `h2c_w_to_dir_data` leaves it. -/
structure DirData where
  dirGblockAddr : Addr
  dirGblockIndex : BlockIndex
  dirGblockBitmap : NodeId → Bool
  state : RawState
  replicaCount : BitVec 8

/-- What the local variables of the `INIT_DIR` branch hold before they are assigned. -/
structure Uninit where
  ctrlMsg : CtrlMsg
  agentClineAddr : NodeId → Addr

/-- `dir_data_to_dir_data_e`, which leaves the addresses of the replicas alone. -/
def dirDataToDirDataE (d : DirData) (agentClineAddr : NodeId → Addr) : DirDataE where
  dirGblockAddr := d.dirGblockAddr
  dirGblockIndex := d.dirGblockIndex
  dirGblockBitmap := d.dirGblockBitmap
  state := d.state
  replicaCount := d.replicaCount
  agentClineAddr := agentClineAddr

/-- The control message of an initialised entry; its length has a default. -/
def initDirMsg (d : DirData) (m : CtrlMsg) : CtrlMsg :=
  { m with mtype := .initDir, dirGblockIndex := d.dirGblockIndex, dataMsgLength := 0 }

/-- The stage: its registers, its three input streams and its three output streams. -/
structure DirStage where
  regs : DirRegs
  dirDataInit : List DirData
  ctrlMsgRIn : List CtrlMsg
  dirDataIn : List DirDataE
  /-- `ctrl_msg_f_DC_t_CMC_out`. -/
  ctrlMsgOut : List CtrlMsg
  dirDataOut : List DirDataE
  ctrlMsgWOut : List CtrlMsg

namespace DirStage

/-- The branch for `dir_data_init`. -/
def initDir (s : DirStage) (d : DirData) (ds : List DirData) (u : Uninit) : DirStage :=
  { s with
    dirDataInit := ds
    dirDataOut := s.dirDataOut ++ [dirDataToDirDataE d u.agentClineAddr]
    ctrlMsgWOut := s.ctrlMsgWOut ++ [initDirMsg d u.ctrlMsg] }

/-- The branch that takes up `m` with entry `e`. -/
def take (s : DirStage) (m : CtrlMsg) (ms : List CtrlMsg) (e : DirDataE) (es : List DirDataE) :
    DirStage :=
  let t := transaction s.regs m e
  { s with
    regs := t.regs
    ctrlMsgRIn := ms
    dirDataIn := es
    ctrlMsgOut := s.ctrlMsgOut ++ t.out.toList
    dirDataOut := s.dirDataOut ++ [t.dirData]
    ctrlMsgWOut := s.ctrlMsgWOut ++ [t.ctrlMsgW] }

/-- The branch of the multicast. -/
def copy (s : DirStage) : DirStage :=
  { s with
    regs := (copyStep s.regs).1
    ctrlMsgOut := s.ctrlMsgOut ++ (copyStep s.regs).2.toList }

/-- One invocation of `dirCtrlHLS_to_net`. -/
def tick (s : DirStage) (u : Uninit) : DirStage :=
  match s.dirDataInit with
  | d :: ds => s.initDir d ds u
  | [] =>
      if s.regs.regCopyFlag = false then
        match s.ctrlMsgRIn, s.dirDataIn with
        | m :: ms, e :: es => s.take m ms e es
        | _, _ => s
      else s.copy

end DirStage

/-- A tick of the stage, or an arrival on one of its input streams. -/
inductive StageAction
  | dirDataInit (d : DirData)
  | ctrlMsgR (m : CtrlMsg)
  | dirData (e : DirDataE)
  | tick (u : Uninit)

namespace DirStage

/-- One action. -/
def step (s : DirStage) : StageAction → DirStage
  | .dirDataInit d => { s with dirDataInit := s.dirDataInit ++ [d] }
  | .ctrlMsgR m => { s with ctrlMsgRIn := s.ctrlMsgRIn ++ [m] }
  | .dirData e => { s with dirDataIn := s.dirDataIn ++ [e] }
  | .tick u => s.tick u

/-- A sequence of actions. -/
def run (s : DirStage) (acts : List StageAction) : DirStage :=
  acts.foldl step s

@[simp] theorem run_nil (s : DirStage) : s.run [] = s := rfl

@[simp] theorem run_cons (s : DirStage) (a : StageAction) (acts : List StageAction) :
    s.run (a :: acts) = (s.step a).run acts := rfl

theorem tick_init {s : DirStage} {d : DirData} {ds : List DirData} (h : s.dirDataInit = d :: ds)
    (u : Uninit) : s.tick u = s.initDir d ds u := by
  simp only [tick, h]

theorem tick_take {s : DirStage} {m : CtrlMsg} {ms : List CtrlMsg} {e : DirDataE}
    {es : List DirDataE} (hi : s.dirDataInit = []) (hf : s.regs.regCopyFlag = false)
    (hm : s.ctrlMsgRIn = m :: ms) (he : s.dirDataIn = e :: es) (u : Uninit) :
    s.tick u = s.take m ms e es := by
  simp only [tick, hi, hf, hm, he, if_true]

theorem tick_copy {s : DirStage} (hi : s.dirDataInit = []) (hf : s.regs.regCopyFlag = true)
    (u : Uninit) : s.tick u = s.copy := by
  simp only [tick, hi, hf, Bool.true_eq_false, if_false]

end DirStage

end Ting
