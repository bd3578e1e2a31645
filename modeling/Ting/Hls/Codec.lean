/-
# `Ting.Hls.Codec` — one message format

A control message is a packed struct of 64 bytes on the host, a struct of bit fields on the
FPGA and a word of 512 bits in between: the CPU's store and the ring buffers of the host carry
the bytes as they are, the network carries them in reverse order.  Five functions of `utils.cpp`
translate, with one layout; the network uses the two bytes behind `dir_gblock_nodeID` for
`data_msg_length`, the host one of them for `general_c2h_owner`.

Whatever a function does not assign keeps its value, and what is not initialised is arbitrary:
the functions take the old content of what they write.
-/
import Ting.Lib.BitRange
import Ting.Hls.Message

namespace Ting

open BitRange

/-! ## Structs -/

/-- `RawMessage`, packed.  A `bool` is a byte. -/
structure RawMessage where
  mtype : BitVec 8
  reqClineNodeID : BitVec 8
  reqClineAppThreadID : BitVec 8
  reqClineAddr : BitVec 64
  reqClineIndex : BitVec 32
  clineTag : BitVec 64
  agentClineNodeID : BitVec 8
  agentClineAddr : BitVec 64
  dirGblockAddr : BitVec 64
  dirGblockIndex : BitVec 32
  dirGblockBitmap : NodeId → BitVec 8
  dirGblockNodeID : BitVec 8
  generalC2hOwner : BitVec 8
  initState : BitVec 8
  initMac : Fin 6 → BitVec 8
  padding0 : BitVec 8
  padding1 : BitVec 16

/-- `struct_ctrl_msg`, bit for bit. -/
structure StructCtrlMsg where
  mtype : BitVec 8
  reqClineNodeID : BitVec 8
  reqClineAppThreadID : BitVec 8
  reqClineAddr : BitVec 64
  reqClineIndex : BitVec 32
  clineTag : BitVec 64
  agentClineNodeID : BitVec 8
  agentClineAddr : BitVec 64
  dirGblockAddr : BitVec 64
  dirGblockIndex : BitVec 32
  dirGblockBitmap : NodeId → BitVec 8
  dirGblockNodeID : BitVec 8
  generalC2hOwner : BitVec 8
  initState : BitVec 8
  initMac : BitVec 48
  dataMsgLength : BitVec 16
  dstThreadType : BitVec 8
  dstNodeId : BitVec 8
  lockPosition : BitVec 8

/-- `struct_net_rxtx`. -/
structure StructNetRxtx where
  data : BitVec 512
  keep : BitVec 64
  last : BitVec 1

/-- `struct_h2c_w`. -/
structure StructH2cW where
  wdata : BitVec 512
  wlast : BitVec 1
  wstrb : BitVec 64

/-- `struct_c2h_data`. -/
structure StructC2hData where
  data : BitVec 512
  ctrlQid : BitVec 11
  last : BitVec 1

/-! ## Bytes of a `RawMessage` -/

namespace RawMessage

/-- The struct in memory. -/
def bytes (m : RawMessage) : List (BitVec 8) :=
  leBytes 1 m.mtype ++ (leBytes 1 m.reqClineNodeID ++ (leBytes 1 m.reqClineAppThreadID ++
    (leBytes 8 m.reqClineAddr ++ (leBytes 4 m.reqClineIndex ++ (leBytes 8 m.clineTag ++
    (leBytes 1 m.agentClineNodeID ++ (leBytes 8 m.agentClineAddr ++ (leBytes 8 m.dirGblockAddr ++
    (leBytes 4 m.dirGblockIndex ++ (List.ofFn m.dirGblockBitmap ++ (leBytes 1 m.dirGblockNodeID ++
    (leBytes 1 m.generalC2hOwner ++ (leBytes 1 m.initState ++ (List.ofFn m.initMac ++
    (leBytes 1 m.padding0 ++ leBytes 2 m.padding1)))))))))))))))

/-- The struct that the bytes are. -/
def ofBytes (bs : List (BitVec 8)) : RawMessage where
  mtype := field bs 0 1
  reqClineNodeID := field bs 1 1
  reqClineAppThreadID := field bs 2 1
  reqClineAddr := field bs 3 8
  reqClineIndex := field bs 11 4
  clineTag := field bs 15 8
  agentClineNodeID := field bs 23 1
  agentClineAddr := field bs 24 8
  dirGblockAddr := field bs 32 8
  dirGblockIndex := field bs 40 4
  dirGblockBitmap i := field bs (i + 44) 1
  dirGblockNodeID := field bs 52 1
  generalC2hOwner := field bs 53 1
  initState := field bs 54 1
  initMac i := field bs (i + 55) 1
  padding0 := field bs 61 1
  padding1 := field bs 62 2

/-- The offsets are those of the packed struct. -/
theorem ofBytes_bytes (m : RawMessage) : ofBytes m.bytes = m := by
  have hbitmap : ∀ i : NodeId, (field m.bytes (i + 44) 1 : BitVec 8) = m.dirGblockBitmap i := by
    intro i
    simp [bytes, field_skip, field_ofFn, -List.ofFn_succ]
  have hmac : ∀ i : Fin 6, (field m.bytes (i + 55) 1 : BitVec 8) = m.initMac i := by
    intro i
    simp [bytes, field_skip, field_ofFn, -List.ofFn_succ]
  unfold ofBytes
  simp only [hbitmap, hmac]
  simp [bytes, field_skip, field_here, field_last, -List.ofFn_succ]

end RawMessage

/-! ## Slices -/

/-- The assignments with which `ctrl_msg_to_net_tx` and `ctrl_msg_to_c2h_data` begin. -/
def putFields (w : BitVec 512) (m : StructCtrlMsg) : BitVec 512 :=
  let w := setSlice w 7 0 m.mtype
  let w := setSlice w 15 8 m.reqClineNodeID
  let w := setSlice w 23 16 m.reqClineAppThreadID
  let w := setSlice w 87 24 m.reqClineAddr
  let w := setSlice w 119 88 m.reqClineIndex
  let w := setSlice w 183 120 m.clineTag
  let w := setSlice w 191 184 m.agentClineNodeID
  let w := setSlice w 255 192 m.agentClineAddr
  let w := setSlice w 319 256 m.dirGblockAddr
  let w := setSlice w 351 320 m.dirGblockIndex
  let w := (List.finRange 8).foldl
    (fun w (i : NodeId) => setSlice w (351 + 8 * (i + 1)) (352 + 8 * i) (m.dirGblockBitmap i)) w
  setSlice w 423 416 m.dirGblockNodeID

/-- Those with which `net_rx_to_ctrl_msg` and `h2c_w_to_ctrl_msg` do. -/
def getFields (w : BitVec 512) (m : StructCtrlMsg) : StructCtrlMsg :=
  { m with
    mtype := slice w 7 0
    reqClineNodeID := slice w 15 8
    reqClineAppThreadID := slice w 23 16
    reqClineAddr := slice w 87 24
    reqClineIndex := slice w 119 88
    clineTag := slice w 183 120
    agentClineNodeID := slice w 191 184
    agentClineAddr := slice w 255 192
    dirGblockAddr := slice w 319 256
    dirGblockIndex := slice w 351 320
    dirGblockBitmap := fun i => slice w (351 + 8 * (i + 1)) (352 + 8 * i)
    dirGblockNodeID := slice w 423 416 }

/-- `m` with the fields of `c`. -/
def StructCtrlMsg.copyFields (c m : StructCtrlMsg) : StructCtrlMsg :=
  { m with
    mtype := c.mtype
    reqClineNodeID := c.reqClineNodeID
    reqClineAppThreadID := c.reqClineAppThreadID
    reqClineAddr := c.reqClineAddr
    reqClineIndex := c.reqClineIndex
    clineTag := c.clineTag
    agentClineNodeID := c.agentClineNodeID
    agentClineAddr := c.agentClineAddr
    dirGblockAddr := c.dirGblockAddr
    dirGblockIndex := c.dirGblockIndex
    dirGblockBitmap := c.dirGblockBitmap
    dirGblockNodeID := c.dirGblockNodeID }

section Cells

variable {k hi lo : ℕ} (c : ℕ) (b : NodeId → BitVec 8) (w : BitVec 512)

/-- The bits outside a bitmap; `c` is the bit below it. -/
theorem slice_cells_of_disjoint (h : hi < c + 1 ∨ c + 64 < lo) :
    (slice ((List.finRange 8).foldl (fun w (i : NodeId) =>
      setSlice w (c + 8 * (i + 1)) (c + 1 + 8 * i) (b i)) w) hi lo : BitVec k) = slice w hi lo := by
  refine slice_foldl_of_disjoint _ w fun i _ => ?_
  have := i.isLt
  omega

/-- The cells of a bitmap are apart. -/
theorem slice_cells (i : NodeId) (hc : c + 64 < 512) :
    slice ((List.finRange 8).foldl (fun w (i : NodeId) =>
      setSlice w (c + 8 * (i + 1)) (c + 1 + 8 * i) (b i)) w) (c + 8 * (i + 1)) (c + 1 + 8 * i)
        = b i := by
  have := i.isLt
  refine slice_foldl (fun i : NodeId => c + 8 * ((i : ℕ) + 1)) (fun i => c + 1 + 8 * i) b _ w
    (List.mem_finRange i) ?_ (by omega) (by omega)
  refine (List.nodup_finRange 8).imp fun {i j} hne => ?_
  have := Fin.val_ne_of_ne hne
  omega

end Cells

/-- The bits outside the bitmap. -/
theorem slice_bitmap_of_disjoint {k hi lo : ℕ} (b : NodeId → BitVec 8) (w : BitVec 512)
    (h : hi < 352 ∨ 415 < lo) :
    (slice ((List.finRange 8).foldl (fun w (i : NodeId) =>
      setSlice w (351 + 8 * (i + 1)) (352 + 8 * i) (b i)) w) hi lo : BitVec k) = slice w hi lo :=
  slice_cells_of_disjoint 351 b w h

theorem slice_bitmap (b : NodeId → BitVec 8) (w : BitVec 512) (i : NodeId) :
    slice ((List.finRange 8).foldl (fun w (i : NodeId) =>
      setSlice w (351 + 8 * (i + 1)) (352 + 8 * i) (b i)) w) (351 + 8 * (i + 1)) (352 + 8 * i)
        = b i :=
  slice_cells 351 b w i (by decide)

/-- What is written is read. -/
theorem getFields_putFields (w : BitVec 512) (c m : StructCtrlMsg) :
    getFields (putFields w c) m = c.copyFields m := by
  have hbitmap : ∀ i : NodeId, slice (putFields w c) (351 + 8 * (i + 1)) (352 + 8 * i)
      = c.dirGblockBitmap i := by
    intro i
    have := i.isLt
    rw [putFields, slice_setSlice_of_disjoint (by omega)]
    exact slice_bitmap c.dirGblockBitmap _ i
  unfold getFields StructCtrlMsg.copyFields
  simp only [hbitmap]
  congr 1 <;>
    simp (disch := omega) only [putFields, slice_setSlice_of_disjoint, slice_setSlice,
      slice_bitmap_of_disjoint]

/-- Nothing behind the fields is read. -/
theorem getFields_setSlice {n hi lo : ℕ} (w : BitVec 512) (v : BitVec n) (m : StructCtrlMsg)
    (h : 424 ≤ lo) : getFields (setSlice w hi lo v) m = getFields w m := by
  have hbitmap : ∀ i : NodeId,
      (slice (setSlice w hi lo v) (351 + 8 * (i + 1)) (352 + 8 * i) : BitVec 8)
        = slice w (351 + 8 * (i + 1)) (352 + 8 * i) := by
    intro i
    have := i.isLt
    exact slice_setSlice_of_disjoint (by omega)
  unfold getFields
  simp (disch := omega) only [hbitmap, slice_setSlice_of_disjoint]

/-! ## The byte order of the network -/

/-- The loop that reverses the bytes of `tmp_l2payload` into `tmp_net_tx.data`. -/
def toNet (payload data : BitVec 512) : BitVec 512 :=
  (List.finRange 64).foldl (fun d (i : Fin 64) => setSlice d ((i + 1) * 8 - 1) (i * 8)
    (slice payload (511 - i * 8) (511 - ((i + 1) * 8 - 1)) : BitVec 8)) data

/-- The loop that reverses them back. -/
def ofNet (data payload : BitVec 512) : BitVec 512 :=
  (List.finRange 64).foldl (fun p (i : Fin 64) => setSlice p (511 - i * 8)
    (511 - ((i + 1) * 8 - 1)) (slice data ((i + 1) * 8 - 1) (i * 8) : BitVec 8)) payload

theorem slice_toNet (payload data : BitVec 512) (i : Fin 64) :
    slice (toNet payload data) ((i + 1) * 8 - 1) (i * 8)
      = (slice payload (511 - i * 8) (511 - ((i + 1) * 8 - 1)) : BitVec 8) := by
  have := i.isLt
  refine slice_foldl (fun i : Fin 64 => ((i : ℕ) + 1) * 8 - 1) (fun i => i * 8)
    (fun i => slice payload (511 - i * 8) (511 - ((i + 1) * 8 - 1))) _ data
    (List.mem_finRange i) ?_ (by omega) (by omega)
  refine (List.nodup_finRange 64).imp fun {i j} hne => ?_
  have := Fin.val_ne_of_ne hne
  omega

theorem slice_ofNet (data payload : BitVec 512) (i : Fin 64) :
    slice (ofNet data payload) (511 - i * 8) (511 - ((i + 1) * 8 - 1))
      = (slice data ((i + 1) * 8 - 1) (i * 8) : BitVec 8) := by
  have := i.isLt
  refine slice_foldl (fun i : Fin 64 => 511 - (i : ℕ) * 8)
    (fun i => 511 - ((i + 1) * 8 - 1))
    (fun i => slice data ((i + 1) * 8 - 1) (i * 8)) _ payload (List.mem_finRange i) ?_
    (by omega) (by omega)
  refine (List.nodup_finRange 64).imp fun {i j} hne => ?_
  have := Fin.val_ne_of_ne hne
  have := i.isLt
  have := j.isLt
  omega

/-- Nothing of what the words held before is left. -/
theorem ofNet_toNet (payload data junk : BitVec 512) : ofNet (toNet payload data) junk = payload := by
  refine eq_of_bytes (k := 64) rfl fun i hi => ?_
  have hnet := slice_ofNet (toNet payload data) junk ⟨63 - i, by omega⟩
  rw [slice_toNet] at hnet
  simp only [show 511 - (63 - i) * 8 = 8 * i + 7 by omega,
    show 511 - ((63 - i + 1) * 8 - 1) = 8 * i by omega] at hnet
  exact hnet

/-! ## Codecs -/

/-- `ctrl_msg_to_net_tx`; `payload` is its local word. -/
def ctrlMsgToNetTx (m : StructCtrlMsg) (payload : BitVec 512) (tx : StructNetRxtx) :
    StructNetRxtx where
  data := toNet (setSlice (putFields payload m) 439 424 m.dataMsgLength) tx.data
  keep := 0xffffffffffffffff
  last := if m.dataMsgLength = 0 then 1 else 0

/-- `net_rx_to_ctrl_msg`. -/
def netRxToCtrlMsg (rx : StructNetRxtx) (payload : BitVec 512) (m : StructCtrlMsg) :
    StructCtrlMsg :=
  { getFields (ofNet rx.data payload) m with
    dataMsgLength := slice (ofNet rx.data payload) 439 424 }

/-- `ctrl_msg_to_c2h_data`, which also sets the owner in the message. -/
def ctrlMsgToC2hData (m : StructCtrlMsg) (qid : BitVec 11) (c2h : StructC2hData) :
    StructCtrlMsg × StructC2hData :=
  let m := { m with generalC2hOwner := 1 }
  (m, { data := setSlice (putFields c2h.data m) 431 424 m.generalC2hOwner
        last := 1
        ctrlQid := qid })

/-- `h2c_w_to_ctrl_msg`. -/
def h2cWToCtrlMsg (w : StructH2cW) (m : StructCtrlMsg) : StructCtrlMsg :=
  { getFields w.wdata m with
    initState := slice w.wdata 439 432
    initMac := slice w.wdata 487 440 }

section Codecs

variable {m c : StructCtrlMsg}

/-- The network carries the fields and the length. -/
theorem netRxToCtrlMsg_ctrlMsgToNetTx (payload payload' : BitVec 512) (tx : StructNetRxtx) :
    netRxToCtrlMsg (ctrlMsgToNetTx c payload tx) payload' m
      = { c.copyFields m with dataMsgLength := c.dataMsgLength } := by
  unfold netRxToCtrlMsg ctrlMsgToNetTx
  rw [ofNet_toNet, getFields_setSlice _ _ _ (by omega), getFields_putFields,
    slice_setSlice (by omega) (by omega)]

end Codecs

/-! ## From host to host -/

namespace RawMessage

/-- `c` with the fields of `m`. -/
def copyFields (m : RawMessage) (c : StructCtrlMsg) : StructCtrlMsg :=
  { c with
    mtype := m.mtype
    reqClineNodeID := m.reqClineNodeID
    reqClineAppThreadID := m.reqClineAppThreadID
    reqClineAddr := m.reqClineAddr
    reqClineIndex := m.reqClineIndex
    clineTag := m.clineTag
    agentClineNodeID := m.agentClineNodeID
    agentClineAddr := m.agentClineAddr
    dirGblockAddr := m.dirGblockAddr
    dirGblockIndex := m.dirGblockIndex
    dirGblockBitmap := m.dirGblockBitmap
    dirGblockNodeID := m.dirGblockNodeID }

/-- The fields that a message carries. -/
structure SameFields (m m' : RawMessage) : Prop where
  mtype : m'.mtype = m.mtype
  reqClineNodeID : m'.reqClineNodeID = m.reqClineNodeID
  reqClineAppThreadID : m'.reqClineAppThreadID = m.reqClineAppThreadID
  reqClineAddr : m'.reqClineAddr = m.reqClineAddr
  reqClineIndex : m'.reqClineIndex = m.reqClineIndex
  clineTag : m'.clineTag = m.clineTag
  agentClineNodeID : m'.agentClineNodeID = m.agentClineNodeID
  agentClineAddr : m'.agentClineAddr = m.agentClineAddr
  dirGblockAddr : m'.dirGblockAddr = m.dirGblockAddr
  dirGblockIndex : m'.dirGblockIndex = m.dirGblockIndex
  dirGblockBitmap : ∀ n, m'.dirGblockBitmap n = m.dirGblockBitmap n
  dirGblockNodeID : m'.dirGblockNodeID = m.dirGblockNodeID

theorem SameFields.of_eq {m m' : RawMessage} {c : StructCtrlMsg}
    (h : m'.copyFields c = m.copyFields c) : SameFields m m' where
  mtype := congrArg StructCtrlMsg.mtype h
  reqClineNodeID := congrArg StructCtrlMsg.reqClineNodeID h
  reqClineAppThreadID := congrArg StructCtrlMsg.reqClineAppThreadID h
  reqClineAddr := congrArg StructCtrlMsg.reqClineAddr h
  reqClineIndex := congrArg StructCtrlMsg.reqClineIndex h
  clineTag := congrArg StructCtrlMsg.clineTag h
  agentClineNodeID := congrArg StructCtrlMsg.agentClineNodeID h
  agentClineAddr := congrArg StructCtrlMsg.agentClineAddr h
  dirGblockAddr := congrArg StructCtrlMsg.dirGblockAddr h
  dirGblockIndex := congrArg StructCtrlMsg.dirGblockIndex h
  dirGblockBitmap := congrFun (congrArg StructCtrlMsg.dirGblockBitmap h)
  dirGblockNodeID := congrArg StructCtrlMsg.dirGblockNodeID h

/-- The FPGA finds the fields of the bytes in its slices. -/
theorem getFields_ofLeBytes (bs : List (BitVec 8)) (c : StructCtrlMsg) :
    getFields (ofLeBytes bs) c = (ofBytes bs).copyFields c := by
  have hbitmap : ∀ i : NodeId, (slice (ofLeBytes bs : BitVec 512) (351 + 8 * (i + 1)) (352 + 8 * i)
      : BitVec 8) = field bs (i + 44) 1 := by
    intro i
    have := i.isLt
    exact slice_ofLeBytes (by omega) (by omega) rfl (by omega)
  unfold getFields copyFields ofBytes
  simp only [hbitmap]
  congr 1 <;> exact slice_ofLeBytes rfl rfl rfl (by omega)

/-- And the host those of the slices in the bytes. -/
theorem ofBytes_leBytes (w : BitVec 512) (c : StructCtrlMsg) :
    (ofBytes (leBytes 64 w)).copyFields c = getFields w c := by
  rw [← getFields_ofLeBytes, ofLeBytes_leBytes (by omega)]

theorem ofBytes_leBytes_owner (w : BitVec 512) :
    (ofBytes (leBytes 64 w)).generalC2hOwner = slice w 431 424 := by
  have hslice : (slice (ofLeBytes (leBytes 64 w) : BitVec 512) 431 424 : BitVec 8)
      = field (leBytes 64 w) 53 1 := slice_ofLeBytes rfl rfl rfl (by omega)
  rw [ofLeBytes_leBytes (by omega)] at hslice
  exact hslice.symm

/-- A message arrives as it was sent: from the bytes of the sender through the host's word, the
network and the receiver's word to the bytes of the receiver, whatever these held before. -/
theorem one_message_format (m : RawMessage) (len : BitVec 16) (wlast : BitVec 1)
    (wstrb : BitVec 64) (c c' : StructCtrlMsg) (payload payload' : BitVec 512) (tx : StructNetRxtx)
    (qid : BitVec 11) (c2h : StructC2hData) :
    let sent := { h2cWToCtrlMsg ⟨ofLeBytes m.bytes, wlast, wstrb⟩ c with dataMsgLength := len }
    let received := netRxToCtrlMsg (ctrlMsgToNetTx sent payload tx) payload' c'
    let m' := ofBytes (leBytes 64 (ctrlMsgToC2hData received qid c2h).2.data)
    received.dataMsgLength = len ∧ m'.generalC2hOwner = 1 ∧ SameFields m m' := by
  intro sent received m'
  have hsent : ∀ c', sent.copyFields c' = m.copyFields c' := by
    intro c'
    change (getFields (ofLeBytes m.bytes) c).copyFields c' = _
    rw [getFields_ofLeBytes, ofBytes_bytes]
    rfl
  have hreceived : received = { sent.copyFields c' with dataMsgLength := len } :=
    netRxToCtrlMsg_ctrlMsgToNetTx payload payload' tx
  refine ⟨by rw [hreceived], ?_, .of_eq (c := c) ?_⟩
  · exact (ofBytes_leBytes_owner _).trans (slice_setSlice rfl (by omega))
  · rw [ofBytes_leBytes]
    change getFields (setSlice (putFields c2h.data _) 431 424 _) c = _
    rw [getFields_setSlice _ _ _ (by omega), getFields_putFields, ← hsent, hreceived]
    rfl

end RawMessage

end Ting
