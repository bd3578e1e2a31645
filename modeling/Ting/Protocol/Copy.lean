/-
# `Ting.Protocol.Copy` — a node's copy of a block

What a node has of a block, without the cache lines it is kept in: nothing, a copy at rest, or
a copy that one of its threads has claimed for a request.  A copy at rest may be *parked*: its
line has been moved to the shadow set and a thread is about to evict it.  A claimed copy
remembers what it was claimed for, what the agents have told it meanwhile (`flag`,
`downgraded`), and what its thread knows of the answer.

`Turn` lists what the threads do to a copy on their own, `ask` what a request does to it,
`advance` what an answer does to it, and `obey` what an agent does to it.
-/
import Ting.Hls.Replies

namespace Ting

namespace RawMessageType

/-- The two requests that give a block back. -/
def isEvict : RawMessageType → Bool
  | rEvictShared | rEvictDirty => true
  | _ => false

/-- The two answers that refuse a request. -/
def isFail : RawMessageType → Bool
  | dir2AppMCheckFail | dir2AppBitmapCheckFail => true
  | _ => false

end RawMessageType

/-- The states in which a copy rests: `INVALID`, `SHARED` and `MODIFIED`. -/
inductive Rest
  | invalid
  | shared
  | modified
  deriving DecidableEq, Repr

/-- The request that evicts a copy in this state. -/
def Rest.evictKind : Rest → RawMessageType
  | shared => .rEvictShared
  | _ => .rEvictDirty

/-- What the thread that has claimed a copy knows of the answer to its request.  A write miss
on a shared block is answered in two parts, and `waiting` says which of them has come. -/
inductive Await
  | unsent
  | waiting (o : Origin) (hasData granted : Bool)
  | answered (t : RawMessageType)
  deriving DecidableEq

/-- A thread's claim on a copy. -/
structure Claim where
  thread : ThreadId
  kind : RawMessageType
  downgraded : Bool
  flag : Bool
  await : Await
  deriving DecidableEq

/-- A node's copy of a block. -/
inductive Copy
  | absent
  | resting (st : Rest) (parked : Option ThreadId)
  | claimed (q : Claim)
  deriving DecidableEq

/-- The thread that alone may move a copy on. -/
def Copy.owner : Copy → Option ThreadId
  | absent => none
  | resting _ parked => parked
  | claimed q => some q.thread

/-! ## Threads -/

/-- The state in which a granted request leaves the copy. -/
def RawMessageType.granted : RawMessageType → Rest
  | rReadMiss => .shared
  | _ => .modified

/-- The state in which a refused miss or upgrade leaves the copy. -/
def RawMessageType.denied : RawMessageType → Rest
  | rWriteShared => .shared
  | _ => .invalid

/-- The state to which a refused eviction restores the copy. -/
def Claim.restored (q : Claim) : Rest :=
  if q.kind = .rEvictDirty ∧ q.downgraded = false then .modified else .shared

/-- Every end of a request finds the flag and leaves it cleared: a copy that was revoked in
the meantime is invalid, whatever the answer. -/
def Claim.settle (q : Claim) (st : Rest) : Rest :=
  if q.flag then .invalid else st

/-- What a thread does to a copy on its own. -/
inductive Turn : Copy → Copy → Prop
  /-- `newLine` takes a slot for the block. -/
  | fill : Turn .absent (.resting .invalid none)
  /-- `newLine` gives the slot of an invalid copy to another block. -/
  | reuse : Turn (.resting .invalid none) .absent
  /-- `newLine` moves the line to the shadow set. -/
  | park (τ : ThreadId) {st : Rest} (h : st ≠ .invalid) :
      Turn (.resting st none) (.resting st (some τ))
  /-- `readLine` or `writeLine` has found the line and claims it. -/
  | claim (τ : ThreadId) {st : Rest} {k : RawMessageType}
      (h : st = .invalid ∧ k.isMiss ∨ st = .shared ∧ k = .rWriteShared) :
      Turn (.resting st none) (.claimed ⟨τ, k, false, false, .unsent⟩)
  /-- `start_evict` finds the line invalid. -/
  | discard (τ : ThreadId) : Turn (.resting .invalid (some τ)) .absent
  /-- `start_evict` claims the line. -/
  | evict {τ : ThreadId} {st : Rest} (h : st ≠ .invalid) :
      Turn (.resting st (some τ)) (.claimed ⟨τ, st.evictKind, false, false, .unsent⟩)
  /-- A miss or an upgrade was granted. -/
  | granted {q : Claim} {t : RawMessageType} (hk : q.kind.isEvict = false)
      (hw : q.await = .answered t) (ht : t.isFail = false) :
      Turn (.claimed q) (.resting (q.settle q.kind.granted) none)
  /-- A miss or an upgrade was refused; after `BITMAP_CHECK_FAIL` the thread has seen the
  flag. -/
  | denied {q : Claim} {t : RawMessageType} (hk : q.kind.isEvict = false)
      (hw : q.await = .answered t) (ht : t.isFail) (hf : t.isBitmapFail → q.flag) :
      Turn (.claimed q) (.resting (q.settle q.kind.denied) none)
  /-- An eviction was acknowledged. -/
  | evicted {q : Claim} {t : RawMessageType} (hk : q.kind.isEvict)
      (hw : q.await = .answered t) (ht : t.isEvictAck) : Turn (.claimed q) .absent
  /-- An eviction met the invalidation of its line. -/
  | lost {q : Claim} (hk : q.kind.isEvict) (hw : q.await = .answered .dir2AppBitmapCheckFail)
      (hf : q.flag) : Turn (.claimed q) .absent
  /-- An eviction came at the wrong time and is to be tried again. -/
  | restored {q : Claim} (hk : q.kind.isEvict) (hw : q.await = .answered .dir2AppMCheckFail) :
      Turn (.claimed q) (.resting (q.settle q.restored) (some q.thread))

namespace Copy

/-- A request of thread `τ` and type `k`, under origin `o`. -/
def ask (τ : ThreadId) (k : RawMessageType) (o : Origin) : Copy → Option Copy
  | claimed q =>
      if q.thread = τ ∧ q.kind = k ∧ q.await = .unsent then
        some (claimed { q with await := .waiting o false false })
      else none
  | _ => none

end Copy

/-! ## Answers -/

/-- What an answer of type `t` tells the thread. -/
def Await.learn (o : Origin) (hasData granted : Bool) : RawMessageType → Await
  | .dir2AppWriteMissShareddata =>
      if granted then .answered .dir2AppWriteMissSharedAggackAck else .waiting o true granted
  | .dir2AppWriteMissSharedAggackAck =>
      if hasData then .answered .dir2AppWriteMissSharedAggackAck else .waiting o hasData true
  | t => .answered t

/-- What message `p` tells the thread. -/
def Await.advance (p : Packet) : Await → Await
  | waiting o hasData granted =>
      if p.origin = o then learn o hasData granted p.msg.mtype else waiting o hasData granted
  | w => w

/-- What message `p` does to a claimed copy. -/
def Copy.advance (p : Packet) : Copy → Copy
  | claimed q => claimed { q with await := q.await.advance p }
  | c => c

/-! ## Agents -/

/-- What the agent that handles an order of type `t` does to a copy; `none` while it has to
wait for the copy's state to change. -/
def Copy.obey (t : RawMessageType) : Copy → Option Copy
  | absent => some absent
  | resting .shared o => if t.isSharedOrder then some (resting .invalid o) else none
  | resting .modified o =>
      if t.downgrades then some (resting .shared o)
      else if t.revokesDirty then some (resting .invalid o)
      else none
  | resting .invalid _ => none
  | claimed q =>
      if q.flag then none
      else if t.revokes then some (claimed { q with flag := true })
      else if t.downgrades && q.kind.isEvict && !q.downgraded then
        some (claimed { q with downgraded := true })
      else none

/-! ## What a copy stands for -/

namespace Await

/-- The right to the block that a claim of kind `k` stands for, less what the flag takes away. -/
def right (k : RawMessageType) : Await → ℕ
  | unsent => if k.isMiss then 0 else 1
  | waiting _ _ granted => if k.isMiss then granted.toNat else 1
  | answered t => if k.isMiss then t.isGrant.toNat else (!t.isEvictAck).toNat

/-- The right to write that a claim of kind `k` stands for, as long as its flag is not set. -/
def writeRight (k : RawMessageType) (downgraded : Bool) (w : Await) : ℕ :=
  match k with
  | .rEvictDirty =>
      match w with
      | answered t => (!downgraded && !t.isEvictAck).toNat
      | _ => (!downgraded).toNat
  | .rWriteMiss | .rWriteShared =>
      match w with
      | unsent => 0
      | waiting _ _ granted => granted.toNat
      | answered t => t.isWriteGrant.toNat
  | _ => 0

end Await

namespace Claim

/-- The right to the block that a claimed copy stands for, less what the flag takes away. -/
def right (q : Claim) : ℕ :=
  q.await.right q.kind

/-- The right to write that a claimed copy stands for, as long as its flag is not set. -/
def writeRight (q : Claim) : ℕ :=
  q.await.writeRight q.kind q.downgraded

end Claim

namespace Copy

/-- The right to the block that a copy stands for, less what the flag takes away. -/
def right : Copy → ℕ
  | resting .shared _ | resting .modified _ => 1
  | claimed q => q.right
  | _ => 0

/-- Whether the copy has been revoked while claimed. -/
def flagged : Copy → Bool
  | claimed q => q.flag
  | _ => false

/-- The right to write that a copy stands for, as long as it is not flagged. -/
def writeRight : Copy → ℕ
  | resting .modified _ => 1
  | claimed q => q.writeRight
  | _ => 0

/-- What has come for request `o` so far, if the copy waits for its answer: whether its data,
and whether its grant. -/
def awaits (o : Origin) : Copy → Option (Bool × Bool)
  | claimed q =>
      match q.await with
      | .waiting o' hasData granted => if o' = o then some (hasData, granted) else none
      | _ => none
  | _ => none

/-- One when the answer of `o` has not come. -/
def waits (o : Origin) (c : Copy) : ℕ :=
  (c.awaits o).elim 0 fun w => (!w.2).toNat

/-- One when the data of `o` has come before its grant. -/
def hasData (o : Origin) (c : Copy) : ℕ :=
  (c.awaits o).elim 0 fun w => w.1.toNat

/-- One when the grant of `o` has come before its data. -/
def hasGrant (o : Origin) (c : Copy) : ℕ :=
  (c.awaits o).elim 0 fun w => w.2.toNat

end Copy

end Ting
