/-
# `Ting.Soft.Cache` — the cache of a node

The lines of a node's cache, its locks and its threads.  A line has a place in its set and a
second one in the shadow set, where it waits for its eviction; what `LineInfo` keeps of it is
the lock, the buffer, the flag and status that are exchanged together, the tag and the
address.  The application threads run `readLine`, `writeLine` and `drain_eviction`, the agents
carry out the orders of the directories; where each of them stands is its `Pc`.

A position names the next access to something that others can change: a lock, a status, a
buffer pointer.  What a thread does in between with its own variables belongs to the step
before.
-/
import Mathlib.Data.Fintype.Prod
import Ting.Soft.GlobalAddress

namespace Ting

/-- `CacheStatus`. -/
inductive CacheStatus
  | invalid
  | shared
  | modified
  | toInvalid
  | toShared
  | toModified
  | preserved
  | toPreserved
  deriving DecidableEq, Repr

namespace CacheStatus

instance : Fintype CacheStatus :=
  .ofList [invalid, shared, modified, toInvalid, toShared, toModified, preserved, toPreserved]
    fun s => by cases s <;> decide

/-- `isStable`. -/
def isStable : CacheStatus → Bool
  | invalid | shared | modified => true
  | _ => false

/-- The statuses of a line whose request is outstanding: those in which an agent sets the flag. -/
def isTransient : CacheStatus → Bool
  | toShared | toModified | toPreserved => true
  | _ => false

/-- The statuses of a line whose eviction is under way. -/
def isEvicting : CacheStatus → Bool
  | toPreserved | toShared => true
  | _ => false

/-- The statuses from which an access is served. -/
def permits (write : Bool) : CacheStatus → Bool
  | shared => !write
  | modified => true
  | _ => false

end CacheStatus

/-- `EvictType`. -/
inductive EvictType
  | evictShared
  | evictDirty
  deriving DecidableEq, Repr

/-- A set of the cache, below `max_cline_set_depth_per_node`. -/
abbrev SetIndex := Fin 65536

/-- A slot of a set, below `max_cline_set_width_per_node`. -/
abbrev Slot := Fin 8

/-! ## Lines -/

/-- A place for a line: `cline_set_vector[set][slot]`, or the same of
`shadow_cline_set_vector`. -/
structure LineRef where
  shadow : Bool
  set : SetIndex
  slot : Slot
  deriving DecidableEq, Repr

instance : Fintype LineRef :=
  .ofEquiv (Bool × SetIndex × Slot)
    ⟨fun p => ⟨p.1, p.2.1, p.2.2⟩, fun r => ⟨r.shadow, r.set, r.slot⟩, fun _ => rfl, fun _ => rfl⟩

/-- `LineInfo`, less the indices that say where it is.  `lock` is the counter of its `WRLock`,
and a null pointer is the address zero. -/
structure LineInfo where
  lock : ℕ
  data : Addr
  flag : Bool
  status : CacheStatus
  lineIndex : BitVec 32
  tag : BitVec 64
  addr : Block
  deriving DecidableEq

namespace LineInfo

/-- `setFlagAndStatus`. -/
def setFlagAndStatus (l : LineInfo) (flag : Bool) (s : CacheStatus) : LineInfo :=
  { l with flag := flag, status := s }

/-- `casFlagAndStatus`; `none` when the comparison fails. -/
def casFlagAndStatus (l : LineInfo) (flagFrom : Bool) (sFrom : CacheStatus) (flagTo : Bool)
    (sTo : CacheStatus) : Option LineInfo :=
  if l.flag = flagFrom ∧ l.status = sFrom then some (l.setFlagAndStatus flagTo sTo) else none

/-- `casStatus`: the flag stays as it is. -/
def casStatus (l : LineInfo) (sFrom sTo : CacheStatus) : Option LineInfo :=
  l.casFlagAndStatus l.flag sFrom l.flag sTo

/-- Whether the line holds the block with this tag, as every lookup asks. -/
def holds (l : LineInfo) (tag : BitVec 64) : Bool :=
  l.status ≠ .preserved ∧ l.tag = tag

end LineInfo

/-! ## Sets -/

/-- One round of `hash::jenkins`; `char` is signed. -/
def jenkinsRound (hash : BitVec 64) (key : BitVec 8) : BitVec 64 :=
  let hash := hash + key.signExtend 64
  let hash := hash + (hash <<< 10)
  hash ^^^ (hash >>> 6)

/-- `hash::jenkins` on the four bytes of a word. -/
def jenkins (v : BitVec 32) : BitVec 64 :=
  let hash := jenkinsRound 0 (v.extractLsb' 0 8)
  let hash := jenkinsRound hash (v.extractLsb' 8 8)
  let hash := jenkinsRound hash (v.extractLsb' 16 8)
  let hash := jenkinsRound hash (v.extractLsb' 24 8)
  let hash := hash + (hash <<< 3)
  let hash := hash ^^^ (hash >>> 11)
  hash + (hash <<< 15)

/-- `calLineSet`: the set of a tag, of which only the low word counts. -/
@[irreducible] def calLineSet (tag : BitVec 64) : SetIndex :=
  Fin.ofNat 65536 (jenkins (tag.truncate 32)).toNat

/-! ## Threads -/

/-- What comes after the read lock of the set is given back. -/
inductive AfterLookup
  /-- the write lock, to insert the line -/
  | insert
  /-- nothing: the line is the thread's own eviction -/
  | skip
  /-- a hit -/
  | line (r : LineRef)
  /-- a miss or an upgrade -/
  | request (r : LineRef) (kind : RawMessageType)
  /-- `assert(false)` -/
  | fail
  deriving DecidableEq

/-- Where an application thread stands.  `inWait` tells the `start_evict` that `wait_evict`
calls from the one at the loop head. -/
inductive Pc
  | idle
  /-- `start_evict` -/
  | startEvict
  | evictTry (inWait : Bool)
  | evictDiscard (inWait : Bool)
  | evictDrop (inWait : Bool)
  | evictLock (inWait : Bool)
  | evictSend (inWait : Bool)
  /-- `findLine` and `findShadowLine` -/
  | lockSet
  | find (todo : List Slot)
  | findShadow (line : Option Slot) (todo : List Slot)
  | cas (r : LineRef)
  | casInvalid (r : LineRef)
  | unlock (k : AfterLookup)
  /-- `newLine` -/
  | lockSetW
  | scan (todo : List Slot) (exist : Bool) (available eviction : Option Slot)
  | unlockSetW (new : Bool)
  /-- a copy from or to the line -/
  | lineLock (r : LineRef) (hit : Bool)
  | lineCheck (r : LineRef) (hit : Bool)
  | copy (r : LineRef)
  | copying (r : LineRef) (data : Addr)
  | lineUnlock (r : LineRef)
  /-- `readMiss`, `writeMiss`, `writeShared` and the loop that publishes their result -/
  | request (r : LineRef) (kind : RawMessageType)
  | await (r : LineRef) (kind : RawMessageType) (hasData granted : Bool)
  | spin (r : LineRef) (kind : RawMessageType)
  | finish (r : LineRef) (kind : RawMessageType) (succ : Bool)
  /-- the end of the loop body -/
  | bodyEnd
  /-- `wait_evict` -/
  | waitEvict
  | evictRestore
  | evictSpin
  | evictEnd
  /-- the loops that only receive -/
  | swallow
  /-- a failed assertion -/
  | fault
  deriving DecidableEq

/-- An application thread: the arguments and local variables of its call, and its thread-local
members of `Cache`.  `stack` is its `available_data_stack`, the top first. -/
structure Thread where
  pc : Pc
  addr : Block
  write : Bool
  drain : Bool
  succ : Bool
  dontWait : Bool
  startNext : Bool
  waitCur : Bool
  cur : LineRef
  next : LineRef
  curType : EvictType
  stash : Option CtrlMsg
  stack : List Addr
  deriving DecidableEq

/-- Where an agent stands. -/
inductive AgentPc
  | idle
  | lockSet (m : CtrlMsg)
  | find (m : CtrlMsg) (todo : List Slot)
  | findShadow (m : CtrlMsg) (line : Option Slot) (todo : List Slot)
  | loop (m : CtrlMsg) (r : LineRef)
  | unlock (m : CtrlMsg)
  | fault
  deriving DecidableEq

/-! ## The state -/

/-- The cache of a node, its application threads and its agents. -/
structure Host where
  nodeID : NodeId
  lines : LineRef → LineInfo
  setLock : SetIndex → ℕ
  threads : ThreadId → Thread
  agents : AgentId → AgentPc

namespace Host

def setLine (h : Host) (r : LineRef) (l : LineInfo) : Host :=
  { h with lines := Function.update h.lines r l }

def setSetLock (h : Host) (i : SetIndex) (v : ℕ) : Host :=
  { h with setLock := Function.update h.setLock i v }

def setThread (h : Host) (τ : ThreadId) (t : Thread) : Host :=
  { h with threads := Function.update h.threads τ t }

def setAgent (h : Host) (a : AgentId) (p : AgentPc) : Host :=
  { h with agents := Function.update h.agents a p }

section Setters

variable {h : Host} {r : LineRef} {l : LineInfo} {i : SetIndex} {v : ℕ} {τ : ThreadId}
  {t : Thread} {a : AgentId} {p : AgentPc}

@[simp] theorem setLine_lines : (h.setLine r l).lines = Function.update h.lines r l := rfl
@[simp] theorem setLine_setLock : (h.setLine r l).setLock = h.setLock := rfl
@[simp] theorem setLine_threads : (h.setLine r l).threads = h.threads := rfl
@[simp] theorem setLine_agents : (h.setLine r l).agents = h.agents := rfl
@[simp] theorem setLine_nodeID : (h.setLine r l).nodeID = h.nodeID := rfl

@[simp] theorem setSetLock_lines : (h.setSetLock i v).lines = h.lines := rfl
@[simp] theorem setSetLock_setLock :
    (h.setSetLock i v).setLock = Function.update h.setLock i v := rfl
@[simp] theorem setSetLock_threads : (h.setSetLock i v).threads = h.threads := rfl
@[simp] theorem setSetLock_agents : (h.setSetLock i v).agents = h.agents := rfl
@[simp] theorem setSetLock_nodeID : (h.setSetLock i v).nodeID = h.nodeID := rfl

@[simp] theorem setThread_lines : (h.setThread τ t).lines = h.lines := rfl
@[simp] theorem setThread_setLock : (h.setThread τ t).setLock = h.setLock := rfl
@[simp] theorem setThread_threads :
    (h.setThread τ t).threads = Function.update h.threads τ t := rfl
@[simp] theorem setThread_agents : (h.setThread τ t).agents = h.agents := rfl
@[simp] theorem setThread_nodeID : (h.setThread τ t).nodeID = h.nodeID := rfl

@[simp] theorem setAgent_lines : (h.setAgent a p).lines = h.lines := rfl
@[simp] theorem setAgent_setLock : (h.setAgent a p).setLock = h.setLock := rfl
@[simp] theorem setAgent_threads : (h.setAgent a p).threads = h.threads := rfl
@[simp] theorem setAgent_agents : (h.setAgent a p).agents = Function.update h.agents a p := rfl
@[simp] theorem setAgent_nodeID : (h.setAgent a p).nodeID = h.nodeID := rfl

end Setters

/-- `initLine` deals the buffers out to the threads in turn. -/
def deal (apptNum : ℕ) : ℕ → List Addr → (ThreadId → List Addr) → ThreadId → List Addr
  | _, [], dealt => dealt
  | k, d :: ds, dealt =>
      let τ := Fin.ofNat 24 k
      deal apptNum ((k + 1) % apptNum) ds (Function.update dealt τ (d :: dealt τ))

/-- After `initLine` with the buffers `ds`, and `apptNum` application threads: every line is
`PRESERVED` and without a buffer, nobody holds a lock, nobody has begun anything. -/
structure Init (apptNum : ℕ) (ds : List Addr) (h : Host) : Prop where
  status : ∀ r, (h.lines r).status = .preserved
  flag : ∀ r, (h.lines r).flag = false
  data : ∀ r, (h.lines r).data = 0
  lock : ∀ r, (h.lines r).lock = 0
  setLock : ∀ i, h.setLock i = 0
  pc : ∀ τ, (h.threads τ).pc = .idle
  startNext : ∀ τ, (h.threads τ).startNext = false
  waitCur : ∀ τ, (h.threads τ).waitCur = false
  stash : ∀ τ, (h.threads τ).stash = none
  stack : ∀ τ, (h.threads τ).stack = deal apptNum 0 ds (fun _ => []) τ
  agents : ∀ a, h.agents a = .idle

/-- The node `n` after `initLine`. -/
def start (n : NodeId) (apptNum : ℕ) (ds : List Addr) : Host where
  nodeID := n
  lines _ := ⟨0, 0, false, .preserved, 0, 0, ⟨0, 0⟩⟩
  setLock _ := 0
  threads τ := ⟨.idle, ⟨0, 0⟩, false, false, false, false, false, false, ⟨true, 0, 0⟩,
    ⟨true, 0, 0⟩, .evictShared, none, deal apptNum 0 ds (fun _ => []) τ⟩
  agents _ := .idle

theorem start_init (n : NodeId) (apptNum : ℕ) (ds : List Addr) :
    Init apptNum ds (start n apptNum ds) := by
  constructor <;> intro <;> rfl

end Host

end Ting
