/-
# `Ting.Soft.CacheStep` — what threads and agents do

The steps of `Cache.cpp` and `CacheAgent.cpp`.  Each makes at most one access to what others
can change, or looks at one slot of a set.  A compare-and-swap that fails in a loop leaves
everything as it is and is no step; nor is a lock that is taken.  What `newLine` stores under
the write lock of the set is one step: no lookup sees the set before the lock is given back.

Messages come from outside: a thread takes any message, and so does an agent.
-/
import Ting.Lib.Transition
import Ting.Soft.Cache

namespace Ting

/-! ## Status tables -/

namespace RawMessageType

/-- The status in which a line waits for the answer to a miss or an upgrade. -/
def toStatus : RawMessageType → CacheStatus
  | rReadMiss => .toShared
  | _ => .toModified

/-- The status that a granted request ends in. -/
def grantedStatus : RawMessageType → CacheStatus
  | rReadMiss => .shared
  | _ => .modified

/-- The status that a refused request ends in. -/
def deniedStatus : RawMessageType → CacheStatus
  | rWriteShared => .shared
  | _ => .invalid

end RawMessageType

namespace LineInfo

/-- One round of the loop in which an agent carries out an order; `none` when it has to try
again. -/
def obey (t : RawMessageType) (l : LineInfo) : Option LineInfo :=
  match t with
  | .dir2AgentWriteSharedNotonly | .dir2AgentWriteMissShared =>
      match l.status with
      | .shared => l.casFlagAndStatus false .shared false .invalid
      | .toModified | .toShared | .toPreserved =>
          l.casFlagAndStatus false l.status true l.status
      | .preserved => some l
      | _ => none
  | .dir2AgentReadMissDirty =>
      match l.status with
      | .modified => l.casFlagAndStatus false .modified false .shared
      | .toPreserved => l.casFlagAndStatus false .toPreserved false .toShared
      | .preserved => some l
      | _ => none
  | .dir2AgentWriteMissDirty =>
      match l.status with
      | .modified => l.casFlagAndStatus false .modified false .invalid
      | .toModified | .toShared | .toPreserved =>
          l.casFlagAndStatus false l.status true l.status
      | .preserved => some l
      | _ => none
  | _ => none

/-- The loops in which `wait_evict` takes back an eviction that was refused with
`M_CHECK_FAIL`. -/
def restore (type : EvictType) (l : LineInfo) : Option LineInfo :=
  match type with
  | .evictShared =>
      (l.casFlagAndStatus false .toPreserved false .shared).or
        (l.casFlagAndStatus true .toPreserved false .invalid)
  | .evictDirty =>
      ((l.casFlagAndStatus false .toPreserved false .modified).or
        (l.casFlagAndStatus true .toPreserved false .invalid)).or
        ((l.casFlagAndStatus false .toShared false .shared).or
          (l.casFlagAndStatus true .toShared false .invalid))

/-- The loops that end `readLine` and `writeLine`'s misses and upgrades, and whether the
request still counts as successful. -/
def publish (kind : RawMessageType) (succ : Bool) (l : LineInfo) : Option (LineInfo × Bool) :=
  ((l.casFlagAndStatus true kind.toStatus false .invalid).map (·, false)).or
    ((l.casFlagAndStatus false kind.toStatus false
      (if succ then kind.grantedStatus else kind.deniedStatus)).map (·, succ))

end LineInfo

/-! ## Replies -/

/-- The reply switch of `readMiss`. -/
def readMiss (r : LineRef) : RawMessageType → Pc
  | .agent2AppReadMissDirtyAckdata | .dir2AppReadMissAckdata => .finish r .rReadMiss true
  | .dir2AppMCheckFail => .finish r .rReadMiss false
  | .dir2AppBitmapCheckFail => .spin r .rReadMiss
  | _ => .swallow

/-- The reply switch of `writeMiss`; `granted` says that `copies` is zero. -/
def writeMiss (r : LineRef) (hasData granted : Bool) : RawMessageType → Pc
  | .agent2AppWriteMissDirtyAckdata | .dir2AppWriteMissAckdata => .finish r .rWriteMiss true
  | .dir2AppWriteMissShareddata =>
      if hasData then .fault
      else if granted then .finish r .rWriteMiss true
      else .await r .rWriteMiss true granted
  | .dir2AppWriteMissSharedAggackAck =>
      if hasData then .finish r .rWriteMiss true else .await r .rWriteMiss hasData true
  | .dir2AppMCheckFail => .finish r .rWriteMiss false
  | .dir2AppBitmapCheckFail => .spin r .rWriteMiss
  | _ => .swallow

/-- The reply switch of `writeShared`. -/
def writeShared (r : LineRef) : RawMessageType → Pc
  | .dir2AppWriteSharedNotonlyAggackAck | .dir2AppWriteSharedOnlyack =>
      .finish r .rWriteShared true
  | .dir2AppMCheckFail => .finish r .rWriteShared false
  | .dir2AppBitmapCheckFail => .spin r .rWriteShared
  | _ => .swallow

/-- The reply switch of the function that sent a request of this kind. -/
def replySwitch (r : LineRef) (kind : RawMessageType) (hasData granted : Bool)
    (t : RawMessageType) : Pc :=
  match kind with
  | .rReadMiss => readMiss r t
  | .rWriteMiss => writeMiss r hasData granted t
  | _ => writeShared r t

/-- The reply switch of `wait_evict`. -/
def evictSwitch : RawMessageType → Pc
  | .dir2AppEvictDirtyAck | .dir2AppEvictSharedAck => .evictDiscard true
  | .dir2AppMCheckFail => .evictRestore
  | .dir2AppBitmapCheckFail => .evictSpin
  | _ => .fault

/-! ## Threads -/

namespace Thread

/-- The tag that the call is about. -/
def tag (t : Thread) : BitVec 64 := t.addr.getTag

/-- The set in which the call looks. -/
def set (t : Thread) : SetIndex := calLineSet t.tag

/-- The lock that an access to line `r` takes is the write lock, but for a read, and for a line in
the shadow set, where `writeLine` takes the read lock, too. -/
def excludes (t : Thread) (r : LineRef) : Bool := t.write && !r.shadow

/-- The end of the loop body: `readLine` and `writeLine` go round until they succeed,
`drain_eviction` has only the one `wait_evict`. -/
def loop (t : Thread) : Pc :=
  if t.drain || t.succ then .idle else .startEvict

/-- `start_evict` turns to the eviction that was asked for. -/
def beginEvict (t : Thread) (inWait : Bool) : Thread :=
  { t with startNext := false, waitCur := true, cur := t.next, pc := .evictTry inWait }

/-- `wait_evict` has taken back an eviction and calls `start_evict` for it again. -/
def retryEvict (t : Thread) : Thread :=
  { t with startNext := true, next := t.cur }.beginEvict true

/-- `wait_evict` looks at a message; `tag` is that of the line it waits for. -/
def onEvictReply (t : Thread) (tag : BitVec 64) (m : CtrlMsg) : Thread :=
  { t with pc := if m.clineTag = tag then evictSwitch m.mtype else .fault }

/-- `readMiss`, `writeMiss` and `writeShared` look at a message. -/
def onReply (t : Thread) (r : LineRef) (kind : RawMessageType) (hasData granted : Bool)
    (curTag : BitVec 64) (m : CtrlMsg) : Thread :=
  if m.clineTag = t.tag then
    { t with pc := replySwitch r kind hasData granted m.mtype }
  else if t.waitCur ∧ m.clineTag = curTag then { t with stash := some m }
  else { t with pc := .swallow }

end Thread

namespace AfterLookup

/-- Where a thread goes after it has given the read lock of the set back. -/
def pc : AfterLookup → Pc
  | insert => .lockSetW
  | skip => .bodyEnd
  | line r => .lineLock r true
  | request r kind => .request r kind
  | fail => .fault

end AfterLookup

namespace Host

variable (h : Host)

/-- `generate_message`; the other fields of the message are not initialised. -/
def generateMessage (τ : ThreadId) (kind : RawMessageType) (addr : Block) (l : LineInfo)
    (junk : CtrlMsg) : CtrlMsg :=
  { junk with
    mtype := kind
    reqClineNodeID := h.nodeID
    reqClineAppThreadID := τ
    reqClineAddr := l.data
    reqClineIndex := l.lineIndex
    clineTag := addr.getTag
    dirGblockIndex := addr.index
    dirGblockNodeID := addr.nodeID }

/-- What a thread decides when both lookups are through. -/
def afterLookup (t : Thread) : Option Slot → Option Slot → Pc
  | none, none => .unlock .insert
  | none, some s =>
      if t.waitCur ∧ (h.lines t.cur).tag = t.tag then .unlock .skip
      else .unlock (.line ⟨true, t.set, s⟩)
  | some _, some _ => .unlock .fail
  | some s, none => .cas ⟨false, t.set, s⟩

/-- One round of `findLine`. -/
def findLine (t : Thread) : List Slot → Thread
  | [] => { t with pc := .findShadow none (List.finRange 8) }
  | s :: todo =>
      if (h.lines ⟨false, t.set, s⟩).holds t.tag then
        { t with pc := .findShadow (some s) (List.finRange 8) }
      else { t with pc := .find todo }

/-- One round of `findShadowLine`. -/
def findShadowLine (t : Thread) (line : Option Slot) : List Slot → Thread
  | [] => { t with dontWait := false, pc := h.afterLookup t line none }
  | s :: todo =>
      if (h.lines ⟨true, t.set, s⟩).holds t.tag then
        { t with dontWait := false, pc := h.afterLookup t line (some s) }
      else { t with pc := .findShadow line todo }

/-- What an agent does when both loops of `findLineForAgent` are through. -/
def afterFind (m : CtrlMsg) : Option Slot → Option Slot → AgentPc
  | some _, some _ => .fault
  | some s, none => .loop m ⟨false, calLineSet m.clineTag, s⟩
  | none, some s => .loop m ⟨true, calLineSet m.clineTag, s⟩
  | none, none => .unlock m

/-- One round of the first loop of `findLineForAgent`. -/
def findLineForAgent (m : CtrlMsg) : List Slot → AgentPc
  | [] => .findShadow m none (List.finRange 8)
  | s :: todo =>
      if (h.lines ⟨false, calLineSet m.clineTag, s⟩).holds m.clineTag then
        .findShadow m (some s) (List.finRange 8)
      else .find m todo

/-- One round of the second. -/
def findShadowForAgent (m : CtrlMsg) (line : Option Slot) : List Slot → AgentPc
  | [] => afterFind m line none
  | s :: todo =>
      if (h.lines ⟨true, calLineSet m.clineTag, s⟩).holds m.clineTag then afterFind m line (some s)
      else .findShadow m line todo

/-- One round of the loop in which `newLine` looks for a slot. -/
def scanSlot (t : Thread) (s : Slot) (todo : List Slot) (exist : Bool)
    (available eviction : Option Slot) : Pc :=
  let line := h.lines ⟨false, t.set, s⟩
  let shadow := h.lines ⟨true, t.set, s⟩
  if line.holds t.tag ∨ shadow.holds t.tag then .scan todo true available eviction
  else if line.status = .preserved then .scan todo exist (some s) eviction
  else if line.status.isStable ∧ shadow.status = .preserved then .scan todo exist available (some s)
  else .scan todo exist available eviction

/-- A line filled for the thread's block. -/
def filled (t : Thread) (l : LineInfo) (data : Addr) : LineInfo :=
  { l with tag := t.tag, addr := t.addr, data := data, flag := false, status := .invalid }

/-- `newLine` takes over the slot of another line.  An invalid line is overwritten; any other
one goes to the shadow set, and the thread has to evict it.  `ptr` is the word below the
stack, which `back()` returns when the stack is empty. -/
def replaceLine (τ : ThreadId) (ptr : Addr) (s : Slot) : Host :=
  let t := h.threads τ
  let r : LineRef := ⟨false, t.set, s⟩
  let r' : LineRef := ⟨true, t.set, s⟩
  let line := h.lines r
  if line.status = .invalid then
    (h.setLine r { line with tag := t.tag, addr := t.addr }).setThread τ
      { t with pc := .unlockSetW true }
  else
    ((h.setLine r' { h.lines r' with
        tag := line.tag, addr := line.addr, data := line.data, flag := false,
        status := line.status }).setLine r
      (filled t line (t.stack.head?.getD ptr))).setThread τ
      { t with startNext := true, next := r', stack := t.stack.tail, pc := .unlockSetW true }

/-- What `newLine` stores. -/
def newLine (τ : ThreadId) (ptr : Addr) (exist : Bool) (available eviction : Option Slot) : Host :=
  match exist, available, (h.threads τ).stack, eviction with
  | false, some s, d :: stack, _ =>
      let r : LineRef := ⟨false, (h.threads τ).set, s⟩
      (h.setLine r (filled (h.threads τ) (h.lines r) d)).setThread τ
        { h.threads τ with stack := stack, pc := .unlockSetW true }
  | false, _, _, some s => h.replaceLine τ ptr s
  | _, _, _, _ => h.setThread τ { h.threads τ with pc := .unlockSetW false }

/-! ## Steps -/

/-- The next step of a thread that neither sends nor receives. -/
def threadStep (τ : ThreadId) : Option Host :=
  let t := h.threads τ
  let cur := h.lines t.cur
  let go (pc : Pc) : Option Host := some (h.setThread τ { t with pc := pc })
  match t.pc with
  | .startEvict =>
      some (h.setThread τ (if t.startNext then t.beginEvict false else { t with pc := .lockSet }))
  | .evictTry w =>
      if cur.status = .invalid then
        some (h.setThread τ { t with waitCur := false, pc := .evictDiscard w })
      else (cur.casStatus cur.status .toPreserved).map fun l =>
        (h.setLine t.cur l).setThread τ { t with
          curType := if cur.status = .shared then .evictShared else .evictDirty
          pc := .evictLock w }
  | .evictDiscard w =>
      some ((h.setLine t.cur { cur with data := 0 }).setThread τ
        { t with stack := cur.data :: t.stack, pc := .evictDrop w })
  | .evictDrop w =>
      some ((h.setLine t.cur (cur.setFlagAndStatus false .preserved)).setThread τ
        { t with pc := if w then .evictEnd else .lockSet })
  | .evictLock w =>
      if cur.lock = 0 then
        some ((h.setLine t.cur { cur with lock := 1 }).setThread τ { t with pc := .evictSend w })
      else none
  | .lockSet =>
      if h.setLock t.set ≠ 1 then
        some ((h.setSetLock t.set (h.setLock t.set + 2)).setThread τ
          { t with pc := .find (List.finRange 8) })
      else none
  | .find todo => some (h.setThread τ (h.findLine t todo))
  | .findShadow line todo => some (h.setThread τ (h.findShadowLine t line todo))
  | .cas r =>
      if t.write then
        match (h.lines r).casFlagAndStatus false .shared false .toModified with
        | some l =>
            some ((h.setLine r l).setThread τ { t with pc := .unlock (.request r .rWriteShared) })
        | none => go (.casInvalid r)
      else
        match (h.lines r).casFlagAndStatus false .invalid false .toShared with
        | some l =>
            some ((h.setLine r l).setThread τ { t with pc := .unlock (.request r .rReadMiss) })
        | none => go (.unlock (.line r))
  | .casInvalid r =>
      match (h.lines r).casFlagAndStatus false .invalid false .toModified with
      | some l => some ((h.setLine r l).setThread τ { t with pc := .unlock (.request r .rWriteMiss) })
      | none => go (.unlock (.line r))
  | .unlock k =>
      some ((h.setSetLock t.set (h.setLock t.set - 2)).setThread τ { t with pc := k.pc })
  | .lockSetW =>
      if h.setLock t.set = 0 then
        some ((h.setSetLock t.set 1).setThread τ
          { t with pc := .scan (List.finRange 8) false none none })
      else none
  | .scan (s :: todo) exist available eviction =>
      go (h.scanSlot t s todo exist available eviction)
  | .unlockSetW new =>
      some ((h.setSetLock t.set 0).setThread τ { t with dontWait := new, pc := .bodyEnd })
  | .lineLock r hit =>
      let l := h.lines r
      if t.excludes r then
        if l.lock = 0 then
          some ((h.setLine r { l with lock := 1 }).setThread τ { t with pc := .lineCheck r hit })
        else none
      else if l.lock ≠ 1 then
        some ((h.setLine r { l with lock := l.lock + 2 }).setThread τ { t with pc := .lineCheck r hit })
      else none
  | .lineCheck r hit =>
      if (h.lines r).status.permits t.write then
        some (h.setThread τ { t with succ := true, dontWait := hit, pc := .copy r })
      else some (h.setThread τ { t with succ := false, pc := .lineUnlock r })
  | .copy r => go (.copying r (h.lines r).data)
  | .copying r _ => go (.lineUnlock r)
  | .lineUnlock r =>
      let l := h.lines r
      some ((h.setLine r { l with lock := if t.excludes r then 0 else l.lock - 2 }).setThread τ
        { t with pc := .bodyEnd })
  | .spin r kind => if (h.lines r).flag then go (.finish r kind false) else none
  | .finish r kind succ => (LineInfo.publish kind succ (h.lines r)).map fun (l, succ) =>
      (h.setLine r l).setThread τ
        { t with succ := succ, pc := if succ then .lineLock r false else .bodyEnd }
  | .bodyEnd => go (if !t.dontWait && t.waitCur then .waitEvict else t.loop)
  | .waitEvict => t.stash.map fun m =>
      h.setThread τ ({ t with stash := none }.onEvictReply cur.tag m)
  | .evictRestore => (cur.restore t.curType).map fun l =>
      (h.setLine t.cur l).setThread τ t.retryEvict
  | .evictSpin => if cur.flag then go (.evictDiscard true) else none
  | .evictEnd =>
      some ((h.setLine t.cur { cur with lock := 0 }).setThread τ
        { t with waitCur := false, pc := t.loop })
  | _ => none

/-- The message that a thread is about to send. -/
def sends (τ : ThreadId) (junk : CtrlMsg) : Option CtrlMsg :=
  let t := h.threads τ
  match t.pc with
  | .evictSend _ =>
      let kind := match t.curType with
        | .evictShared => .rEvictShared
        | .evictDirty => .rEvictDirty
      some (h.generateMessage τ kind (h.lines t.cur).addr (h.lines t.cur) junk)
  | .request r kind => some (h.generateMessage τ kind t.addr (h.lines r) junk)
  | _ => none

/-- It has sent it. -/
def afterSend (τ : ThreadId) : Host :=
  let t := h.threads τ
  match t.pc with
  | .evictSend w => h.setThread τ { t with pc := if w then .waitEvict else .lockSet }
  | .request r kind => h.setThread τ { t with pc := .await r kind false false }
  | _ => h

/-- A thread that waits for a message takes `m`. -/
def receive (τ : ThreadId) (m : CtrlMsg) : Option Host :=
  let t := h.threads τ
  let curTag := (h.lines t.cur).tag
  match t.pc with
  | .await r kind hasData granted =>
      some (h.setThread τ (t.onReply r kind hasData granted curTag m))
  | .waitEvict => if t.stash = none then some (h.setThread τ (t.onEvictReply curTag m)) else none
  | .swallow => some h
  | _ => none

/-- An idle thread is called. -/
def call (τ : ThreadId) (drain write : Bool) (addr : Block) : Option Host :=
  let t := h.threads τ
  if t.pc = .idle then
    some (h.setThread τ { t with
      addr := addr, write := write, drain := drain, succ := false,
      pc := if drain then (if t.waitCur then .waitEvict else .idle) else .startEvict })
  else none

/-- The next step of an agent that has a message in hand. -/
def agentStep (a : AgentId) : Option Host :=
  match h.agents a with
  | .lockSet m =>
      let i := calLineSet m.clineTag
      if h.setLock i ≠ 1 then
        some ((h.setSetLock i (h.setLock i + 2)).setAgent a (.find m (List.finRange 8)))
      else none
  | .find m todo => some (h.setAgent a (h.findLineForAgent m todo))
  | .findShadow m line todo => some (h.setAgent a (h.findShadowForAgent m line todo))
  | .loop m r =>
      if m.mtype.isOrder then
        ((h.lines r).obey m.mtype).map fun l => (h.setLine r l).setAgent a (.unlock m)
      else some (h.setAgent a .fault)
  | .unlock m =>
      let i := calLineSet m.clineTag
      some ((h.setSetLock i (h.setLock i - 2)).setAgent a .idle)
  | _ => none

end Host

/-- What the threads and agents of a node do. -/
inductive HostAction
  /-- An application calls `readLine`, `writeLine` or `drain_eviction`. -/
  | call (τ : ThreadId) (drain write : Bool) (addr : Block)
  /-- A thread makes a step of its own. -/
  | thread (τ : ThreadId)
  /-- A thread stores a new line. -/
  | insert (τ : ThreadId) (ptr : Addr)
  /-- A thread sends a request. -/
  | send (τ : ThreadId) (junk : CtrlMsg)
  /-- A thread takes a message. -/
  | receive (τ : ThreadId) (m : CtrlMsg)
  /-- An agent takes a message. -/
  | take (a : AgentId) (m : CtrlMsg)
  /-- It goes on with it. -/
  | agent (a : AgentId)

namespace Host

/-- The step function. -/
def step (a : HostAction) (h : Host) : Option Host :=
  match a with
  | .call τ drain write addr => h.call τ drain write addr
  | .thread τ => h.threadStep τ
  | .insert τ ptr =>
      match (h.threads τ).pc with
      | .scan [] exist available eviction => some (h.newLine τ ptr exist available eviction)
      | _ => none
  | .send τ junk => if (h.sends τ junk).isSome then some (h.afterSend τ) else none
  | .receive τ m => h.receive τ m
  | .take a m => if h.agents a = .idle then some (h.setAgent a (.lockSet m)) else none
  | .agent a => h.agentStep a

end Host

/-- A node as a transition system, open to any messages. -/
def host (apptNum : ℕ) (ds : List Addr) : TransitionSystem Host HostAction :=
  ⟨Host.Init apptNum ds, Host.step⟩

/-! ## Runs -/

/-- `k` steps of thread `τ`. -/
def HostAction.ofThread (τ : ThreadId) (k : ℕ) : List HostAction :=
  List.replicate k (.thread τ)

/-- `k` steps of agent `a`. -/
def HostAction.ofAgent (a : AgentId) (k : ℕ) : List HostAction :=
  List.replicate k (.agent a)

/-- A message of type `t` about block `b`. -/
def CtrlMsg.about (t : RawMessageType) (b : Block) : CtrlMsg where
  mtype := t
  reqClineNodeID := 0
  reqClineAppThreadID := 0
  reqClineAddr := 0
  reqClineIndex := 0
  clineTag := b.getTag
  agentClineNodeID := 0
  agentClineAddr := 0
  dirGblockAddr := 0
  dirGblockIndex := b.index
  dirGblockBitmap _ := false
  dirGblockNodeID := b.nodeID
  dataMsgLength := 0
  dstThreadType := .sys
  dstNodeId := 0
  lockPosition := 0

namespace Host

open HostAction (ofThread)

/-- Thread `τ` inserts a line for block `b`, and stops behind the write lock. -/
def insertLine (τ : ThreadId) (b : Block) : List HostAction :=
  .call τ false false b :: ofThread τ 30 ++ .insert τ 0 :: ofThread τ 1

/-- It goes on to read the block, which it finds in round `k` of its lookup. -/
def missLine (τ : ThreadId) (b : Block) (k : ℕ) : List HostAction :=
  ofThread τ (14 + k) ++ .send τ (.about .initDir b) ::
    .receive τ (.about .dir2AppReadMissAckdata b) :: ofThread τ 7

end Host

end Ting
