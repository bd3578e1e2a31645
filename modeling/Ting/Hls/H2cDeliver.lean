/-
# `Ting.Hls.H2cDeliver` — what the host writes over the bridge

Over the bridge the host writes one word of 512 bits for each message.  `h2cCtrlMsgDeliverHLS` looks
at the type of a word: an `INIT_DIR` message becomes an entry for the directory, an `INIT_NET`
message an address for `parser`, and everything else is a control message for the cache controller.
-/
import Ting.Hls.DdrCodec
import Ting.Hls.NetLink

namespace Ting

open BitRange

/-- `struct_dir_data`, bit for bit. -/
@[ext]
structure StructDirData where
  dirGblockAddr : BitVec 64
  dirGblockIndex : BitVec 32
  dirGblockBitmap : NodeId → BitVec 8
  state : BitVec 8
  replicaCount : BitVec 8

-- the derived instance casts along an equality of bitmaps, which does not evaluate
instance : DecidableEq StructDirData :=
  fun _ _ => decidable_of_iff' _ StructDirData.ext_iff

/-- The struct of an entry. -/
def DirData.toStruct (d : DirData) : StructDirData where
  dirGblockAddr := d.dirGblockAddr
  dirGblockIndex := d.dirGblockIndex
  dirGblockBitmap := fun n => if d.dirGblockBitmap n then 1 else 0
  state := d.state.code
  replicaCount := d.replicaCount

theorem RawState.code_injective : Function.Injective RawState.code := by
  intro a b h
  cases a <;> cases b <;> first | rfl | cases h

/-- `extract_mtype_from_h2c_w`. -/
def extractMtypeFromH2cW (w : StructH2cW) : BitVec 8 := slice w.wdata 7 0

/-- `h2c_w_to_dir_data`. -/
def h2cWToDirData (w : StructH2cW) : StructDirData where
  dirGblockAddr := slice w.wdata 319 256
  dirGblockIndex := slice w.wdata 351 320
  dirGblockBitmap := fun i => slice w.wdata (351 + 8 * (i + 1)) (352 + 8 * i)
  state := slice w.wdata 439 432
  replicaCount := 0

/-- `h2c_w_to_net_init_msg`. -/
def h2cWToNetInitMsg (w : StructH2cW) : StructNetInitMsg where
  nodeId := slice w.wdata 423 416
  nodeMac := slice w.wdata 487 440

/-! ## The machine -/

/-- `h2cCtrlMsgDeliverHLS` with its streams; `ctrlMsgOut` is all that it has written there. -/
structure H2cDeliver where
  h2cW : List StructH2cW
  ctrlMsgOut : List StructCtrlMsg
  netInitMsg : List StructNetInitMsg
  dirDataInit : List StructDirData
  regCount : BitVec 32
  regMsg : StructCtrlMsg

/-- The word is for the directory. -/
def StructH2cW.isInitDir (w : StructH2cW) : Bool :=
  decide (extractMtypeFromH2cW w = RawMessageType.initDir.code)

/-- The word is for `parser`. -/
def StructH2cW.isInitNet (w : StructH2cW) : Bool :=
  decide (extractMtypeFromH2cW w = RawMessageType.initNet.code)

/-- The word is neither. -/
def StructH2cW.isRequest (w : StructH2cW) : Bool := !w.isInitDir && !w.isInitNet

namespace H2cDeliver

/-- One invocation of `h2cCtrlMsgDeliverHLS`; `m` is what its local message holds before. -/
def tick (m : StructCtrlMsg) (s : H2cDeliver) : H2cDeliver :=
  match s.h2cW with
  | w :: ws =>
      if extractMtypeFromH2cW w = RawMessageType.initDir.code then
        { s with h2cW := ws, dirDataInit := s.dirDataInit ++ [h2cWToDirData w] }
      else if extractMtypeFromH2cW w = RawMessageType.initNet.code then
        { s with h2cW := ws, netInitMsg := s.netInitMsg ++ [h2cWToNetInitMsg w] }
      else
        { s with
          h2cW := ws
          ctrlMsgOut := s.ctrlMsgOut ++ [h2cWToCtrlMsg w m]
          regCount := s.regCount + 1
          regMsg := h2cWToCtrlMsg w m }
  | [] => s

/-- The entries that have been written and are still to be taken up by the directory. -/
def dirInits (s : H2cDeliver) : List StructDirData :=
  s.dirDataInit ++ (s.h2cW.filter StructH2cW.isInitDir).map h2cWToDirData

/-- The addresses that have been written and are still to be taken up by `parser`. -/
def netInits (s : H2cDeliver) : List StructNetInitMsg :=
  s.netInitMsg ++ (s.h2cW.filter StructH2cW.isInitNet).map h2cWToNetInitMsg

/-- The words of control messages that wait. -/
def requests (s : H2cDeliver) : List StructH2cW :=
  s.h2cW.filter StructH2cW.isRequest

theorem kinds (w : StructH2cW) :
    w.isInitDir = decide (extractMtypeFromH2cW w = RawMessageType.initDir.code) ∧
      w.isInitNet = decide (extractMtypeFromH2cW w = RawMessageType.initNet.code) ∧
      w.isRequest = (!w.isInitDir && !w.isInitNet) :=
  ⟨rfl, rfl, rfl⟩

/-- A tick moves a word from one stream to another: what is under way to the directory and to
`parser` stays as it is, and a control message goes out. -/
theorem tick_cases (m : StructCtrlMsg) (s : H2cDeliver) :
    (s.tick m).dirInits = s.dirInits ∧ (s.tick m).netInits = s.netInits ∧
      ((s.tick m).requests = s.requests ∧ (s.tick m).ctrlMsgOut = s.ctrlMsgOut ∧
          (s.tick m).regCount = s.regCount ∨
        ∃ w, s.requests = w :: (s.tick m).requests ∧
          (s.tick m).ctrlMsgOut = s.ctrlMsgOut ++ [h2cWToCtrlMsg w m] ∧
          (s.tick m).regCount = s.regCount + 1) := by
  cases hw : s.h2cW with
  | nil =>
      have htick : s.tick m = s := by simp only [tick, hw]
      rw [htick]
      exact ⟨rfl, rfl, .inl ⟨rfl, rfl, rfl⟩⟩
  | cons w ws =>
      by_cases hdir : extractMtypeFromH2cW w = RawMessageType.initDir.code
      · have hnet : extractMtypeFromH2cW w ≠ RawMessageType.initNet.code := by
          rw [hdir]
          decide
        obtain ⟨hd, hn, hr⟩ := kinds w
        rw [decide_eq_true hdir] at hd
        rw [decide_eq_false hnet] at hn
        have htick : s.tick m = { s with
            h2cW := ws, dirDataInit := s.dirDataInit ++ [h2cWToDirData w] } := by
          simp only [tick, hw, if_pos hdir]
        rw [htick]
        refine ⟨?_, ?_, .inl ⟨?_, rfl, rfl⟩⟩ <;>
          simp [dirInits, netInits, requests, hw, hd, hn, hr]
      · by_cases hnet : extractMtypeFromH2cW w = RawMessageType.initNet.code
        · obtain ⟨hd, hn, hr⟩ := kinds w
          rw [decide_eq_false hdir] at hd
          rw [decide_eq_true hnet] at hn
          have htick : s.tick m = { s with
              h2cW := ws, netInitMsg := s.netInitMsg ++ [h2cWToNetInitMsg w] } := by
            simp only [tick, hw, if_neg hdir, if_pos hnet]
          rw [htick]
          refine ⟨?_, ?_, .inl ⟨?_, rfl, rfl⟩⟩ <;>
            simp [dirInits, netInits, requests, hw, hd, hn, hr]
        · obtain ⟨hd, hn, hr⟩ := kinds w
          rw [decide_eq_false hdir] at hd
          rw [decide_eq_false hnet] at hn
          have htick : s.tick m = { s with
              h2cW := ws
              ctrlMsgOut := s.ctrlMsgOut ++ [h2cWToCtrlMsg w m]
              regCount := s.regCount + 1
              regMsg := h2cWToCtrlMsg w m } := by
            simp only [tick, hw, if_neg hdir, if_neg hnet]
          rw [htick]
          refine ⟨?_, ?_, .inr ⟨w, ?_, rfl, rfl⟩⟩ <;>
            simp [dirInits, netInits, requests, hw, hd, hn, hr]

end H2cDeliver

/-! ## Messages as words -/

namespace RawMessage

/-- The word that the host writes for a message. -/
def toH2cW (m : RawMessage) (wlast : BitVec 1) (wstrb : BitVec 64) : StructH2cW :=
  ⟨ofLeBytes m.bytes, wlast, wstrb⟩

theorem initState_bytes (m : RawMessage) : (field m.bytes 54 1 : BitVec 8) = m.initState :=
  congrArg initState (ofBytes_bytes m)

theorem initMac_bytes (m : RawMessage) :
    (field m.bytes 55 6 : BitVec 48) = ofLeBytes (List.ofFn m.initMac) := by
  have hskip : (field m.bytes 55 6 : BitVec 48) = field (List.ofFn m.initMac ++
      (leBytes 1 m.padding0 ++ leBytes 2 m.padding1)) 0 6 := by
    simp [bytes, field_skip, -List.ofFn_succ]
  rw [hskip, field, List.drop_zero, List.take_left' List.length_ofFn]

/-- The fields of the word are those of the message. -/
theorem getFields_toH2cW (m : RawMessage) (wlast : BitVec 1) (wstrb : BitVec 64)
    (c : StructCtrlMsg) : getFields (m.toH2cW wlast wstrb).wdata c = m.copyFields c := by
  rw [toH2cW, getFields_ofLeBytes, ofBytes_bytes]

theorem extractMtype_toH2cW (m : RawMessage) (wlast : BitVec 1) (wstrb : BitVec 64) :
    extractMtypeFromH2cW (m.toH2cW wlast wstrb) = m.mtype := by
  have hslice : (slice (ofLeBytes m.bytes : BitVec 512) 7 0 : BitVec 8) = field m.bytes 0 1 :=
    slice_ofLeBytes rfl rfl rfl (by omega)
  exact hslice.trans (congrArg mtype (ofBytes_bytes m))

/-- The entry that the directory is to have. -/
theorem h2cWToDirData_toH2cW (m : RawMessage) (wlast : BitVec 1) (wstrb : BitVec 64) :
    h2cWToDirData (m.toH2cW wlast wstrb)
      = ⟨m.dirGblockAddr, m.dirGblockIndex, m.dirGblockBitmap, m.initState, 0⟩ := by
  have hfields := m.getFields_toH2cW wlast wstrb
    (m.copyFields ⟨0, 0, 0, 0, 0, 0, 0, 0, 0, 0, fun _ => 0, 0, 0, 0, 0, 0, 0, 0, 0⟩)
  have hstate : (slice (ofLeBytes m.bytes : BitVec 512) 439 432 : BitVec 8) = field m.bytes 54 1 :=
    slice_ofLeBytes rfl rfl rfl (by omega)
  unfold h2cWToDirData
  rw [StructDirData.mk.injEq]
  exact ⟨congrArg StructCtrlMsg.dirGblockAddr hfields, congrArg StructCtrlMsg.dirGblockIndex hfields,
    congrArg StructCtrlMsg.dirGblockBitmap hfields, hstate.trans m.initState_bytes, rfl⟩

/-- The address that `parser` is to have. -/
theorem h2cWToNetInitMsg_toH2cW (m : RawMessage) (wlast : BitVec 1) (wstrb : BitVec 64) :
    h2cWToNetInitMsg (m.toH2cW wlast wstrb)
      = ⟨m.dirGblockNodeID, ofLeBytes (List.ofFn m.initMac)⟩ := by
  have hnode : (slice (ofLeBytes m.bytes : BitVec 512) 423 416 : BitVec 8) = field m.bytes 52 1 :=
    slice_ofLeBytes rfl rfl rfl (by omega)
  have hmac : (slice (ofLeBytes m.bytes : BitVec 512) 487 440 : BitVec 48) = field m.bytes 55 6 :=
    slice_ofLeBytes rfl rfl rfl (by omega)
  unfold h2cWToNetInitMsg
  rw [StructNetInitMsg.mk.injEq]
  exact ⟨hnode.trans (congrArg dirGblockNodeID (ofBytes_bytes m)), hmac.trans m.initMac_bytes⟩

/-- A control message with what the word of `m` carries. -/
def Carries (m : RawMessage) (c : StructCtrlMsg) : Prop :=
  ∀ c', c.copyFields c' = m.copyFields c'

theorem carries_toH2cW (m : RawMessage) (wlast : BitVec 1) (wstrb : BitVec 64)
    (c : StructCtrlMsg) : m.Carries (h2cWToCtrlMsg (m.toH2cW wlast wstrb) c) := by
  intro c'
  show (getFields (m.toH2cW wlast wstrb).wdata c).copyFields c' = _
  rw [getFields_toH2cW]
  rfl

end RawMessage

end Ting
