/-
# `Ting.Hls.NetLink` — from one node's `parser` to another's `deparser`

`parser` sends a control message as a header with the addresses of the two network interfaces, a
beat with the message and, if the message has a length, the beats of its payload; `deparser` takes
that apart again.  Each is a machine of three stages, of the same names on both sides, and each
does at most one thing in a tick: when what it waits for is not there, the tick does nothing.

The two share a stream of beats, which the network delivers in order and at its own pace.  What
the streams into `parser` will bring is fixed from the start; when it arrives is not.  Local
variables are only partly assigned: what they hold before is an argument of the tick.
-/
import Ting.Hls.Payload
import Ting.Hls.C2hQueue

namespace Ting

open BitRange

/-- `struct_data_msg`. -/
structure StructDataMsg where
  data : BitVec 512
  keep : BitVec 64
  last : BitVec 1

/-- `struct_net_init_msg`. -/
structure StructNetInitMsg where
  nodeId : BitVec 8
  nodeMac : BitVec 48

/-- `SEND_STAGE_MAC`, `RECV_STAGE_MAC` and so on. -/
inductive NetStage
  | mac
  | ctrl
  | data
  deriving DecidableEq

/-- `PSEUDO_QID_D`. -/
def pseudoQidD : BitVec 11 := 2

/-- `set_mac`; `payload` is its local word. -/
def setMac (srcMac dstMac : BitVec 48) (payload : BitVec 512) (tx : StructNetRxtx) :
    StructNetRxtx where
  data := toNet (setSlice (setSlice payload 511 464 dstMac) 463 416 srcMac) tx.data
  keep := 0xffffffffffffffff
  last := 0

/-- `data_msg_to_net_tx`. -/
def dataMsgToNetTx (d : StructDataMsg) (tx : StructNetRxtx) : StructNetRxtx where
  data := toNet d.data tx.data
  keep := 0xffffffffffffffff
  last := d.last

/-- `net_rx_to_c2h_data`; `payload` is its local word. -/
def netRxToC2hData (rx : StructNetRxtx) (payload : BitVec 512) : StructC2hData where
  data := ofNet rx.data payload
  ctrlQid := pseudoQidD
  last := rx.last

/-! ## `parser` -/

/-- What the local variables of a tick hold before they are assigned; `mac` is what a number
outside of the table reads. -/
structure ParserUninit where
  netTx : StructNetRxtx
  payload : BitVec 512
  mac : BitVec 48

/-- `parser` with its streams. -/
structure Parser where
  netTx : List StructNetRxtx
  netInitMsg : List StructNetInitMsg
  ctrlMsgIn : List StructCtrlMsg
  dataMsgIn : List StructDataMsg
  localMac : BitVec 48
  macTable : NodeId → BitVec 48
  regSendCtrlMsg : StructCtrlMsg
  regSendStage : NetStage

namespace Parser

/-- The first part of a tick: an address for the table. -/
def readInit (s : Parser) : Parser :=
  match s.netInitMsg with
  | m :: ms =>
      if h : m.nodeId.toNat < 8 then
        { s with
          netInitMsg := ms
          macTable := Function.update s.macTable ⟨m.nodeId.toNat, h⟩ m.nodeMac }
      else { s with netInitMsg := ms }
  | [] => s

/-- `mac_table[dst_node_id]`. -/
def dstMac (s : Parser) (m : StructCtrlMsg) (u : ParserUninit) : BitVec 48 :=
  if h : m.dstNodeId.toNat < 8 then s.macTable ⟨m.dstNodeId.toNat, h⟩ else u.mac

/-- The rest of it. -/
def send (s : Parser) (u : ParserUninit) : Parser :=
  match s.regSendStage with
  | .mac =>
      match s.ctrlMsgIn with
      | m :: ms => { s with
          ctrlMsgIn := ms
          regSendCtrlMsg := m
          regSendStage := .ctrl
          netTx := s.netTx ++ [setMac s.localMac (s.dstMac m u) u.payload u.netTx] }
      | [] => s
  | .ctrl => { s with
      netTx := s.netTx ++ [ctrlMsgToNetTx s.regSendCtrlMsg u.payload u.netTx]
      regSendStage := if s.regSendCtrlMsg.dataMsgLength = 0 then .mac else .data }
  | .data =>
      match s.dataMsgIn with
      | d :: ds => { s with
          dataMsgIn := ds
          netTx := s.netTx ++ [dataMsgToNetTx d u.netTx]
          regSendStage := if d.last = 1 then .mac else .data }
      | [] => s

/-- One invocation of `parser`. -/
def tick (s : Parser) (u : ParserUninit) : Parser :=
  s.readInit.send u

end Parser

/-! ## `deparser` -/

/-- What `deparser` writes to one of its four output streams. -/
inductive Written
  /-- `ctrl_msg_f_D_t_CC_out` or `ctrl_msg_f_D_t_DC_out`. -/
  | ctrlMsg (p : StructCtrlMsg.Port) (m : StructCtrlMsg)
  | c2hCmd (c : StructC2hCmd)
  | c2hData (d : StructC2hData)

/-- What the local variables of a tick hold before they are assigned. -/
structure DeparserUninit where
  ctrlMsg : StructCtrlMsg
  payload : BitVec 512

/-- `deparser` with its input stream, and with all that it has written, in order. -/
structure Deparser where
  netRx : List StructNetRxtx
  regRecvCtrlMsg : StructCtrlMsg
  regRecvStage : NetStage
  written : List Written

namespace Deparser

/-- What is written of a control message. -/
def announce (m : StructCtrlMsg) : List Written :=
  .ctrlMsg m.deparser.1 m ::
    (m.deparser.2.map fun a =>
      Written.c2hCmd ⟨a, dsmCacheLineSize.setWidth 32, pseudoQidD⟩).toList

/-- One invocation of `deparser`. -/
def tick (s : Deparser) (u : DeparserUninit) : Deparser :=
  match s.netRx with
  | [] => s
  | rx :: rxs =>
      match s.regRecvStage with
      | .mac => { s with netRx := rxs, regRecvStage := .ctrl }
      | .ctrl =>
          let m := netRxToCtrlMsg rx u.payload u.ctrlMsg
          { s with
            netRx := rxs
            regRecvCtrlMsg := m
            regRecvStage := if m.dataMsgLength = 0 then .mac else .data
            written := s.written ++ announce m }
      | .data => { s with
          netRx := rxs
          regRecvStage := if rx.last = 1 then .mac else .data
          written := s.written ++ [.c2hData (netRxToC2hData rx u.payload)] }

end Deparser

/-! ## The two together -/

/-- Both ends, and what has still to arrive at `parser`. -/
structure NetLink where
  ctrlTodo : List StructCtrlMsg
  dataTodo : List StructDataMsg
  initTodo : List StructNetInitMsg
  parser : Parser
  deparser : Deparser

namespace NetLink

/-- An arrival on one of the three streams into `parser`, a beat on its way from one end to the
other, or a tick. -/
inductive Action
  | ctrlArrives
  | dataArrives
  | initArrives
  | parser (u : ParserUninit)
  | carry
  | deparser (u : DeparserUninit)

/-- The actions without what their local variables hold. -/
inductive Kind
  | ctrlArrives
  | dataArrives
  | initArrives
  | parser
  | carry
  | deparser
  deriving DecidableEq

/-- The kind of an action. -/
def Action.kind : Action → Kind
  | ctrlArrives => .ctrlArrives
  | dataArrives => .dataArrives
  | initArrives => .initArrives
  | parser _ => .parser
  | carry => .carry
  | deparser _ => .deparser

/-- One action. -/
def step (s : NetLink) : Action → NetLink
  | .ctrlArrives =>
      match s.ctrlTodo with
      | m :: ms => { s with
          ctrlTodo := ms
          parser := { s.parser with ctrlMsgIn := s.parser.ctrlMsgIn ++ [m] } }
      | [] => s
  | .dataArrives =>
      match s.dataTodo with
      | d :: ds => { s with
          dataTodo := ds
          parser := { s.parser with dataMsgIn := s.parser.dataMsgIn ++ [d] } }
      | [] => s
  | .initArrives =>
      match s.initTodo with
      | m :: ms => { s with
          initTodo := ms
          parser := { s.parser with netInitMsg := s.parser.netInitMsg ++ [m] } }
      | [] => s
  | .parser u => { s with parser := s.parser.tick u }
  | .carry =>
      match s.parser.netTx with
      | x :: xs => { s with
          parser := { s.parser with netTx := xs }
          deparser := { s.deparser with netRx := s.deparser.netRx ++ [x] } }
      | [] => s
  | .deparser u => { s with deparser := s.deparser.tick u }

/-- A sequence of actions. -/
def run (s : NetLink) (acts : List Action) : NetLink :=
  acts.foldl step s

end NetLink

end Ting
