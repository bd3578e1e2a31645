/-
# `Ting.Soft.Allocators` — global memory, handed out

Every agent of a node owns a part of the node's global memory and gives it away in chunks of 32 MB;
every application thread cuts what it allocates from the chunk it was given last, and asks the next
node for another one when that is used up.  The request goes to whatever agent of the node polls
it, so an allocation is two steps of the thread with one of an agent between them.

A step that fails an assertion ends the program and is not taken here.  `given` and `regions` are
histories: the chunks and to whom they went, and what was returned.  No step looks at them.
-/
import Ting.Soft.Config
import Ting.Hls.Message
import Ting.Lib.Transition
import Mathlib.Order.CompletePartialOrder

namespace Ting

/-- `GlobalAddress`; the address is below 2^64. -/
structure GlobalAddress where
  addr : ℕ
  nodeID : NodeId
  deriving DecidableEq

/-- `GlobalAddress::getIndex`. -/
def GlobalAddress.getIndex (a : GlobalAddress) : ℕ := a.addr / lineSize

/-! ## The allocator of an agent -/

/-- `GlobalAllocator`, less the node of its start. -/
structure GlobalAllocator where
  start : ℕ
  bitmapLen : ℕ
  bitmap : ℕ → Bool
  bitmapTail : ℕ

namespace GlobalAllocator

/-- The constructor. -/
def new (start size : ℕ) : GlobalAllocator where
  start := start
  bitmapLen := size / kChunkSize
  bitmap := fun _ => false
  bitmapTail := 0

/-- `alloc_chunck`: the address of a chunk, or nothing when all are gone; `none` when the assertion
fails. -/
def allocChunck (g : GlobalAllocator) : Option (GlobalAllocator × Option ℕ) :=
  if g.bitmapTail ≥ g.bitmapLen then some (g, none)
  else if g.bitmap g.bitmapTail = false then
    some ({ g with
      bitmap := Function.update g.bitmap g.bitmapTail true
      bitmapTail := g.bitmapTail + 1 }, some ((g.start + g.bitmapTail * kChunkSize) % 2 ^ 64))
  else none

end GlobalAllocator

/-! ## The allocator of a thread -/

/-- `LocalAllocator`. -/
structure LocalAllocator where
  head : GlobalAddress
  cur : GlobalAddress
  logHeads : List GlobalAddress

namespace LocalAllocator

/-- The constructor. -/
def new : LocalAllocator := ⟨⟨0, 0⟩, ⟨0, 0⟩, []⟩

/-- `cur` brought to the start of a line. -/
def alignCur (a : LocalAllocator) (align : Bool) : LocalAllocator :=
  if align ∧ a.cur.addr % lineSize ≠ 0 then
    { a with cur := { a.cur with addr := (a.cur.addr / lineSize + 1) * lineSize % 2 ^ 64 } }
  else a

/-- `malloc`: the allocator, the address and `need_chunck`; `none` when the assertion fails. -/
def malloc (a : LocalAllocator) (size : ℕ) (align : Bool) :
    Option (LocalAllocator × GlobalAddress × Bool) :=
  let a := a.alignCur align
  let res := a.cur
  let stop := (a.cur.addr + size) % 2 ^ 64
  if stop ≤ 40 * gb then
    if a.logHeads = [] ∨ stop > (a.head.addr + kChunkSize) % 2 ^ 64 then some (a, res, true)
    else some ({ a with cur := { a.cur with addr := stop } }, res, false)
  else none

/-- `set_chunck`. -/
def setChunck (a : LocalAllocator) (addr : GlobalAddress) : LocalAllocator :=
  ⟨addr, addr, a.logHeads ++ [addr]⟩

end LocalAllocator

/-! ## The system -/

/-- An application thread, as far as it allocates. -/
structure AllocThread where
  alloc : LocalAllocator
  nextAllocatorNode : NodeId
  /-- Size and alignment of the allocation that waits for a chunk. -/
  waiting : Option (ℕ × Bool)
  /-- The reply of the agent: `PRIMITIVE_ALLOC_ACK` with an address, or `PRIMITIVE_ALLOC_FAIL`. -/
  reply : Option (Option ℕ)

/-- A chunk that has been given away: by which agent, in which place of its order, and to whom. -/
structure Given where
  nodeID : NodeId
  agent : AgentId
  number : ℕ
  toNode : NodeId
  toThread : ThreadId
  deriving DecidableEq

/-- What an allocation has returned, and the chunk it was cut from. -/
structure Region where
  addr : GlobalAddress
  size : ℕ
  aligned : Bool
  toNode : NodeId
  toThread : ThreadId
  chunk : Option Given

/-- The allocators of all nodes. -/
structure AllocState where
  chunckAlloc : NodeId → AgentId → GlobalAllocator
  threads : NodeId → ThreadId → AllocThread
  given : List Given
  regions : List Region
  /-- The chunk that a thread was given last. -/
  chunk : NodeId → ThreadId → Option Given

/-- One step of a thread or an agent. -/
inductive AllocAction
  /-- A thread of node `n` calls `malloc`. -/
  | malloc (n : NodeId) (t : ThreadId) (size : ℕ) (align : Bool)
  /-- Agent `k` of the node that the thread asks answers it. -/
  | serve (n : NodeId) (t : ThreadId) (k : AgentId)
  /-- The thread goes on with the chunk it got. -/
  | finish (n : NodeId) (t : ThreadId)

/-- The bytes of an agent. -/
def DSMConfig.gmemSizePerSyst (c : DSMConfig) : ℕ :=
  c.gmemSizePerNode.toNat / c.systs

namespace AllocState

/-- Thread `t` of node `n` becomes `th`. -/
def setThread (s : AllocState) (n : NodeId) (t : ThreadId) (th : AllocThread) : AllocState :=
  { s with threads := Function.update s.threads n (Function.update (s.threads n) t th) }

/-- Thread `t` of node `n` has been given a region. -/
def returned (s : AllocState) (n : NodeId) (t : ThreadId) (res : GlobalAddress) (size : ℕ)
    (align : Bool) : AllocState :=
  { s with regions := s.regions ++ [⟨res, size, align, n, t, s.chunk n t⟩] }

/-- `Cache::malloc` up to the request for a chunk, if there is one. -/
def mallocStep (c : DSMConfig) (s : AllocState) (n : NodeId) (t : ThreadId) (size : ℕ)
    (align : Bool) : Option AllocState :=
  let th := s.threads n t
  if n.val < c.nodes ∧ th.waiting = none ∧ 1 ≤ size ∧ size ≤ kChunkSize then
    (th.alloc.malloc size align).map fun
      | (a, _, true) => s.setThread n t { th with alloc := a, waiting := some (size, align) }
      | (a, res, false) => (s.setThread n t { th with alloc := a }).returned n t res size align
  else none

/-- Agent `k` of the node asked takes the request. -/
def serveStep (c : DSMConfig) (s : AllocState) (n : NodeId) (t : ThreadId) (k : AgentId) :
    Option AllocState :=
  let th := s.threads n t
  let d := th.nextAllocatorNode
  if th.waiting.isSome ∧ th.reply = none ∧ k.val < c.systs then
    (s.chunckAlloc d k).allocChunck.map fun (g, r) =>
      { s.setThread n t { th with reply := some r } with
        chunckAlloc := Function.update s.chunckAlloc d (Function.update (s.chunckAlloc d) k g)
        given := s.given ++ (r.map fun _ => ⟨d, k, (s.chunckAlloc d k).bitmapTail, n, t⟩).toList
        chunk := if r.isSome then Function.update s.chunk n (Function.update (s.chunk n) t
            (some ⟨d, k, (s.chunckAlloc d k).bitmapTail, n, t⟩))
          else s.chunk }
  else none

/-- The rest of `Cache::malloc`. -/
def finishStep (c : DSMConfig) (s : AllocState) (n : NodeId) (t : ThreadId) : Option AllocState :=
  let th := s.threads n t
  match th.waiting, th.reply with
  | some (size, align), some (some addr) =>
      ((th.alloc.setChunck ⟨addr, th.nextAllocatorNode⟩).malloc size align).bind fun
        | (a, res, false) => some ((s.setThread n t
            { alloc := a
              nextAllocatorNode := Fin.ofNat 8 ((th.nextAllocatorNode + 1) % c.nodes)
              waiting := none
              reply := none }).returned n t res size align)
        | (_, _, true) => none
  | _, _ => none

/-- The step function. -/
def step (c : DSMConfig) (a : AllocAction) (s : AllocState) : Option AllocState :=
  match a with
  | .malloc n t size align => s.mallocStep c n t size align
  | .serve n t k => s.serveStep c n t k
  | .finish n t => s.finishStep c n t

/-- After `DSM::DSM` on every node and `DSM::registerThread` in every thread. -/
structure Init (c : DSMConfig) (s : AllocState) : Prop where
  chunckAlloc : ∀ d k, s.chunckAlloc d k =
    .new (c.gmemSizePerSyst * k.val % 2 ^ 64) c.gmemSizePerSyst
  alloc : ∀ n t, (s.threads n t).alloc = .new
  next : ∀ n t, (s.threads n t).nextAllocatorNode.val < c.nodes
  waiting : ∀ n t, (s.threads n t).waiting = none
  reply : ∀ n t, (s.threads n t).reply = none
  given : s.given = []
  regions : s.regions = []
  chunk : ∀ n t, s.chunk n t = none

/-- Such a state: every thread asks node `d` first. -/
def initial (c : DSMConfig) (d : NodeId) : AllocState where
  chunckAlloc := fun _ k => .new (c.gmemSizePerSyst * k.val % 2 ^ 64) c.gmemSizePerSyst
  threads := fun _ _ => ⟨.new, d, none, none⟩
  given := []
  regions := []
  chunk := fun _ _ => none

theorem initial_init (c : DSMConfig) (d : NodeId) (hd : d.val < c.nodes) : (initial c d).Init c :=
  ⟨fun _ _ => rfl, fun _ _ => rfl, fun _ _ => hd, fun _ _ => rfl, fun _ _ => rfl, rfl, rfl,
    fun _ _ => rfl⟩

end AllocState

/-- The allocators as a transition system. -/
def allocation (c : DSMConfig) : TransitionSystem AllocState AllocAction :=
  ⟨AllocState.Init c, AllocState.step c⟩

end Ting
