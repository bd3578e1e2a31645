/-
# `Ting.Hls.Fabric` — directories, cache controllers and the messages between them

The state of all FPGAs together: the entry of every block, the registers of every
directory and cache controller, and every control message in transit, each with the place
it is in.  `net` is everything between the output port of one stage and the input of the
next (`ctrlMsgCopy`, `dataMsgFetch`, `parser`, the wire, `deparser`); a message there may be
taken in any order, since payload-free messages overtake the others.  The queues of the
application threads and of the agents are in order.

The directory reads and writes an entry in one step.

A request is given a `Ticket` when it enters, and whatever is derived from it carries the
ticket on.  Tickets, `txns` and `current` are bookkeeping for the statements: no step looks
at them.
-/
import Ting.Hls.DirCtrl
import Ting.Hls.CacheCtrl
import Ting.Lib.Transition

namespace Ting

/-- The number a request was given, and what it asked for. -/
structure Ticket where
  id : ℕ
  kind : RawMessageType
  deriving DecidableEq

/-- A message and the ticket of the request it descends from. -/
structure Packet where
  ticket : Ticket
  msg : CtrlMsg
  deriving DecidableEq

/-- Where a message in transit is. -/
inductive Loc
  | net
  | app (n : NodeId) (τ : ThreadId)
  | sys (n : NodeId) (a : AgentId)
  deriving DecidableEq

/-- A message in transit. -/
structure Flight where
  loc : Loc
  packet : Packet
  deriving DecidableEq

/-! ## The history of transactions -/

/-- What a transaction that leaves the entry in a transient state is. -/
inductive TxnKind
  | readMissDirty
  | writeMissDirty
  | writeMissShared
  | writeShared
  deriving DecidableEq, Repr

namespace TxnKind

/-- What request of type `t` on an entry in state `s` starts, when it starts a transaction. -/
def of : RawMessageType → RawState → TxnKind
  | .rReadMiss, _ => readMissDirty
  | .rWriteMiss, .sDirty => writeMissDirty
  | .rWriteMiss, _ => writeMissShared
  | _, _ => writeShared

/-- The state the entry waits in. -/
def state : TxnKind → RawState
  | readMissDirty => .sToShared
  | _ => .sToDirty

/-- The order sent to the agents. -/
def order : TxnKind → RawMessageType
  | readMissDirty => .dir2AgentReadMissDirty
  | writeMissDirty => .dir2AgentWriteMissDirty
  | writeMissShared => .dir2AgentWriteMissShared
  | writeShared => .dir2AgentWriteSharedNotonly

/-- The acknowledgement awaited. -/
def ack : TxnKind → RawMessageType
  | readMissDirty => .agent2DirReadMissDirtyAckdata
  | writeMissDirty => .agent2DirWriteMissDirtyAck
  | writeMissShared => .agent2DirWriteMissSharedAck
  | writeShared => .agent2DirWriteSharedNotonlyAck

/-- The answer that grants the block to the requester: the owner's line, shipped by its cache
controller, or an aggregated grant, released by the last acknowledgement. -/
def grant : TxnKind → RawMessageType
  | readMissDirty => .agent2AppReadMissDirtyAckdata
  | writeMissDirty => .agent2AppWriteMissDirtyAckdata
  | writeMissShared => .dir2AppWriteMissSharedAggackAck
  | writeShared => .dir2AppWriteSharedNotonlyAggackAck

/-- Whether the transaction collects the acknowledgements of many sharers and ends with an
aggregated grant. -/
def isShared : TxnKind → Bool
  | writeMissShared | writeShared => true
  | _ => false

end TxnKind

/-- The record of a transaction: the request that started it, the nodes that held the block
then, the requester apart, the nodes whose acknowledgement has been consumed since, in
order, and the number of aggregated grants emitted. -/
structure Txn where
  ticket : Ticket
  header : Header
  kind : TxnKind
  targets : Finset NodeId
  acked : List NodeId
  aggacks : ℕ
  deriving DecidableEq

/-- The nodes whose acknowledgement is still missing. -/
def Txn.missing (T : Txn) : Finset NodeId :=
  T.targets.filter (· ∉ T.acked)

/-- The node that asked. -/
abbrev Txn.req (T : Txn) : NodeId :=
  T.header.reqClineNodeID

/-- The nodes whose bitmap cell is 1. -/
def DirDataE.bits (e : DirDataE) : Finset NodeId :=
  Finset.univ.filter (e.dirGblockBitmap · = true)

/-- The record of a transaction that starts with message `m` on entry `e`. -/
def Txn.start (ticket : Ticket) (m : CtrlMsg) (e : DirDataE) : Txn :=
  ⟨ticket, m.header, .of m.mtype e.state, e.bits.erase m.reqClineNodeID, [], 0⟩

/-- Whether a message is an aggregated grant. -/
def RawMessageType.isAggack : RawMessageType → Bool
  | dir2AppWriteMissSharedAggackAck | dir2AppWriteSharedNotonlyAggackAck => true
  | _ => false

/-- Note in a record that the directory consumed `m` under its ticket and answered `out`. -/
def Txn.observe (T : Txn) (m : CtrlMsg) (out : Option CtrlMsg) : Txn :=
  { T with
    acked := if m.mtype.isAgent2Dir then T.acked ++ [m.agentClineNodeID] else T.acked
    aggacks := if out.any (·.mtype.isAggack) then T.aggacks + 1 else T.aggacks }

/-! ## The state -/

/-- All FPGAs and the messages in transit. -/
structure Fabric where
  dir : Block → DirDataE
  dirRegs : NodeId → DirRegs
  dirTicket : NodeId → Ticket
  ccRegs : NodeId → CcRegs
  ccTicket : NodeId → Ticket
  regQId : NodeId → AgentId
  flights : List Flight
  nextId : ℕ
  txns : ℕ → Option Txn
  current : Block → Option ℕ

/-- One step of a stage, of the network, or of a host at its interface to the fabric. -/
inductive FabricAction
  /-- A CPU sends request `m`. -/
  | inject (m : CtrlMsg)
  /-- The directory that the `i`-th message has reached consumes it. -/
  | dirTick (i : ℕ)
  /-- The directory of node `h` continues its multicast. -/
  | dirCopy (h : NodeId)
  /-- The cache controller that the `i`-th message has reached consumes it. -/
  | ccTick (i : ℕ)
  /-- The cache controller of node `n` sends the acknowledgement it owes. -/
  | ccCopy (n : NodeId)
  /-- A thread or an agent takes the first message of its queue. -/
  | pop (loc : Loc)

namespace Fabric

/-- The transaction last started on a block. -/
def txnOf (s : Fabric) (b : Block) : Option Txn :=
  (s.current b).bind s.txns

/-- Put messages derived from the one with ticket `k` on the network. -/
def send (k : Ticket) (out : Option CtrlMsg) : List Flight :=
  out.toList.map fun m => ⟨.net, ⟨k, m⟩⟩

/-- A request enters with a fresh ticket. -/
def afterInject (s : Fabric) (m : CtrlMsg) : Fabric :=
  { s with
    flights := s.flights ++ [⟨.net, ⟨⟨s.nextId, m.mtype⟩, cacheCtrlToNet m⟩⟩]
    nextId := s.nextId + 1 }

/-- The bookkeeping of a directory tick on block `b`: a transaction starts when a tick
leads from a stable state into a transient one. -/
def observe (s : Fabric) (b : Block) (p : Packet) (t : DirTick) : Fabric :=
  if !(s.dir b).state.isTransient && t.dirData.state.isTransient then
    { s with
      txns := Function.update s.txns p.ticket.id (some (.start p.ticket p.msg (s.dir b)))
      current := Function.update s.current b (some p.ticket.id) }
  else
    { s with
      txns := Function.update s.txns p.ticket.id
        ((s.txns p.ticket.id).map (·.observe p.msg t.out)) }

/-- The directory of node `h = p.msg.dstNodeId` consumes the `i`-th message `p`. -/
def afterDirTick (s : Fabric) (i : ℕ) (p : Packet) : Fabric :=
  let h := p.msg.dstNodeId
  let b : Block := ⟨h, p.msg.dirGblockIndex⟩
  let t := transaction (s.dirRegs h) p.msg (s.dir b)
  { s.observe b p t with
    dir := Function.update s.dir b t.dirData
    dirRegs := Function.update s.dirRegs h t.regs
    dirTicket := Function.update s.dirTicket h (if t.regs.regCopyFlag then p.ticket
      else s.dirTicket h)
    flights := s.flights.eraseIdx i ++ send p.ticket t.out }

/-- The directory of node `h` makes one step of its multicast. -/
def afterDirCopy (s : Fabric) (h : NodeId) : Fabric :=
  let t := copyStep (s.dirRegs h)
  { s with
    dirRegs := Function.update s.dirRegs h t.1
    flights := s.flights ++ send (s.dirTicket h) t.2 }

/-- Where `c2hCtrlMsgDeliverHLS` puts a message for the CPU of node `n`. -/
def cpuLoc (qNum : ℕ) (s : Fabric) (n : NodeId) (m : CtrlMsg) : Loc :=
  match m.dstThreadType with
  | .app => .app n m.reqClineAppThreadID
  | .sys => .sys n (sysQueue qNum (s.regQId n)).1

/-- The cache controller of node `n = p.msg.dstNodeId` consumes the `i`-th message `p`. -/
def afterCcTick (qNum : ℕ) (s : Fabric) (i : ℕ) (p : Packet) : Fabric :=
  let n := p.msg.dstNodeId
  let t := cacheCtrlFromNet (s.ccRegs n) p.msg
  { s with
    ccRegs := Function.update s.ccRegs n t.regs
    ccTicket := Function.update s.ccTicket n (if t.regs.regCopyFlag then p.ticket
      else s.ccTicket n)
    regQId := Function.update s.regQId n (match t.toCpu.dstThreadType with
      | .app => s.regQId n
      | .sys => (sysQueue qNum (s.regQId n)).2)
    flights := s.flights.eraseIdx i ++
      ⟨s.cpuLoc qNum n t.toCpu, ⟨p.ticket, t.toCpu⟩⟩ :: send p.ticket t.out }

/-- The cache controller of node `n` sends the acknowledgement its register asks for. -/
def afterCcCopy (s : Fabric) (n : NodeId) : Fabric :=
  let t := cacheCtrlCopy (s.ccRegs n)
  { s with
    ccRegs := Function.update s.ccRegs n t.1
    flights := s.flights ++ send (s.ccTicket n) t.2 }

/-- The position of the first message in a queue. -/
def front (s : Fabric) (loc : Loc) : Option ℕ :=
  s.flights.findIdx? (·.loc = loc)

/-- The message a queue offers. -/
def peek (s : Fabric) (loc : Loc) : Option Packet :=
  (s.front loc).bind fun i => s.flights[i]?.map (·.packet)

/-- The first message of a queue is taken. -/
def afterPop (s : Fabric) (i : ℕ) : Fabric :=
  { s with flights := s.flights.eraseIdx i }

/-- The `i`-th message, if it is on the network. -/
def netAt (s : Fabric) (i : ℕ) : Option Packet :=
  match s.flights[i]? with
  | some ⟨.net, p⟩ => some p
  | _ => none

/-- The step function, for `qNum` system queues. -/
def step (qNum : ℕ) (a : FabricAction) (s : Fabric) : Option Fabric :=
  match a with
  | .inject m => if m.mtype.isRequest then some (s.afterInject m) else none
  | .dirTick i => do
      let p ← s.netAt i
      if p.msg.mtype.toDir ∧ (s.dirRegs p.msg.dstNodeId).regCopyFlag = false then
        some (s.afterDirTick i p)
      else none
  | .dirCopy h => if (s.dirRegs h).regCopyFlag then some (s.afterDirCopy h) else none
  | .ccTick i => do
      let p ← s.netAt i
      if p.msg.mtype.toDir = false ∧ (s.ccRegs p.msg.dstNodeId).regCopyFlag = false then
        some (s.afterCcTick qNum i p)
      else none
  | .ccCopy n => if (s.ccRegs n).regCopyFlag then some (s.afterCcCopy n) else none
  | .pop loc => if loc = .net then none else (s.front loc).map s.afterPop

/-- After `INIT_DIR`: every entry initialised, every register idle, nothing in transit. -/
structure Init (s : Fabric) : Prop where
  dir : ∀ b, (s.dir b).IsInit
  dirRegs : ∀ h, (s.dirRegs h).regCopyFlag = false
  ccRegs : ∀ n, (s.ccRegs n).regCopyFlag = false
  regQId : ∀ n, s.regQId n = 0
  flights : s.flights = []
  txns : ∀ i, s.txns i = none
  current : ∀ b, s.current b = none

end Fabric

/-- The fabric as a transition system, open to any requests of its hosts. -/
def fabric (qNum : ℕ) : TransitionSystem Fabric FabricAction :=
  ⟨Fabric.Init, Fabric.step qNum⟩

end Ting
