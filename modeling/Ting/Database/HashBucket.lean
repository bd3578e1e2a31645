/-
# `Ting.Database.HashBucket` — a bucket of the hash index

A bucket is a chain of nodes in global memory, one for each key.  A node has the records of its key
in a chain of arrays, of two slots each, that grows at the front.

`Malloc` and what a local variable has before it is assigned are arguments of a call.  The loops have
fuel.
-/
import Ting.Database.Memory

namespace Ting

namespace Database

abbrev IndexKey := BitVec 64

/-- `SLOT_NUM`. -/
abbrev slotNum : ℕ := 2

structure Items where
  recordPtrs : Fin slotNum → GAddr
  recordPtrsCount : BitVec 64
  next : GAddr

namespace Items

def init (items : Items) : Items :=
  { items with recordPtrsCount := 0, next := .null }

/-- `AddRecordPtr`; `none` where an assertion fails. -/
def addRecordPtr (items : Items) (recordPtr : GAddr) : Option (Bool × Items) := do
  guard (items.recordPtrsCount.toNat ≤ slotNum)
  if items.recordPtrsCount.toNat = slotNum then return (false, items)
  if h : items.recordPtrsCount.toNat < slotNum then
    return (true, { items with
      recordPtrs := Function.update items.recordPtrs ⟨_, h⟩ recordPtr
      recordPtrsCount := items.recordPtrsCount + 1 })
  else none

/-- The struct, with the four bytes before the count and the six at the end. -/
def layout : Layout Items :=
  ((Layout.array slotNum gaddr).seq ((Layout.pad 4).seq (uint64.seq (gaddr.seq (.pad 6))))).map
    (fun x => ⟨x.1, x.2.2.1, x.2.2.2.1⟩)
    (fun i => (i.recordPtrs, (), i.recordPtrsCount, i.next, ())) fun _ => rfl

theorem size_layout : layout.size = 48 := rfl

end Items

structure ItemsIter where
  itemsAddr : GAddr
  pos : ℤ
  items : Items

namespace ItemsIter

/-- The constructor; `items` is not initialised. -/
def new (itemsAddr : GAddr) (items : Items) : ItemsIter :=
  ⟨itemsAddr, -1, items⟩

/-- `GetNext`; `none` where the assertion fails. -/
def getNext (m : Memory) (it : ItemsIter) : Option (GAddr × ItemsIter) := do
  if it.itemsAddr.eqv .null then return (.null, it)
  let it := if it.pos < 0 then { it with items := m.read Items.layout it.itemsAddr, pos := 0 } else it
  guard (BitVec.ofInt 64 it.pos < it.items.recordPtrsCount)
  if h : it.pos.toNat < slotNum then
    let ret := it.items.recordPtrs ⟨_, h⟩
    let it := { it with pos := it.pos + 1 }
    let it := if BitVec.ofInt 64 it.pos = it.items.recordPtrsCount then
      { it with itemsAddr := it.items.next, pos := -1 } else it
    return (ret, it)
  else none

/-- `GetNext` until it returns `Null`. -/
def collect (m : Memory) : ℕ → ItemsIter → Option (List GAddr)
  | 0, _ => none
  | fuel + 1, it => do
    let (record, it) ← it.getNext m
    if record.eqv .null then return []
    let rest ← collect m fuel it
    return record :: rest

end ItemsIter

structure BucketNode where
  key : IndexKey
  next : GAddr
  itemsList : GAddr

/-- The struct, with the four bytes at the end. -/
def BucketNode.layout : Layout BucketNode :=
  (uint64.seq (gaddr.seq (gaddr.seq (.pad 4)))).map (fun x => ⟨x.1, x.2.1, x.2.2.1⟩)
    (fun n => (n.key, n.next, n.itemsList, ())) fun _ => rfl

theorem BucketNode.size_layout : BucketNode.layout.size = 32 := rfl

/-- `BucketHeader`, with the memory that its nodes are in and the regions that it has allocated. -/
structure BucketHeader where
  head : GAddr
  mem : Memory
  regions : List Region

/-- What a call of `InsertNode` finds: the regions that `Malloc` returns, if it is called, and the
fields of `new_items`. -/
structure Found where
  newItemsAddr : GAddr
  newNodeAddr : GAddr
  newItems : Items

namespace BucketHeader

def init (mem : Memory) : BucketHeader :=
  ⟨.null, mem, []⟩

/-- `Write` of a value. -/
def write {α : Type} (b : BucketHeader) (l : Layout α) (a : GAddr) (x : α) : BucketHeader :=
  { b with mem := b.mem.write l a x }

/-- `Malloc`, when it returns `a`. -/
def malloc (b : BucketHeader) (a : GAddr) (size : BitVec 64) : BucketHeader :=
  { b with regions := ⟨a, size⟩ :: b.regions }

/-- The loop of `InsertNode` and `SearchNode`: the address of the node with the key, if there is
one, of the node before it, and the node that was read last. -/
def find (m : Memory) (key : IndexKey) :
    ℕ → GAddr → GAddr → BucketNode → Option (GAddr × GAddr × BucketNode)
  | 0, _, _, _ => none
  | fuel + 1, cur, prev, node =>
    if cur.eqv .null then some (cur, prev, node)
    else
      let node := m.read BucketNode.layout cur
      if node.key = key then some (cur, prev, node)
      else find m key fuel node.next cur node

/-- `InsertNode`; `none` where an assertion fails. -/
def insertNode (fuel : ℕ) (b : BucketHeader) (key : IndexKey) (recordPtr : GAddr) (f : Found) :
    Option (Bool × BucketHeader) := do
  let (curAddr, prevAddr, curNode) ← find b.mem key fuel b.head .null ⟨key, .null, .null⟩
  if ¬ curAddr.eqv .null then
    let (added, items) ← (b.mem.read Items.layout curNode.itemsList).addRecordPtr recordPtr
    if added then return (false, b.write Items.layout curNode.itemsList items)
    let (_, newItems) ← f.newItems.init.addRecordPtr recordPtr
    let newItems := { newItems with next := curNode.itemsList }
    let b := (b.malloc f.newItemsAddr 48).write Items.layout f.newItemsAddr newItems
    return (false, b.write BucketNode.layout curAddr { curNode with itemsList := f.newItemsAddr })
  else
    let (_, newItems) ← f.newItems.init.addRecordPtr recordPtr
    let b := (b.malloc f.newItemsAddr 48).write Items.layout f.newItemsAddr newItems
    let newNode : BucketNode := ⟨key, .null, f.newItemsAddr⟩
    let b := (b.malloc f.newNodeAddr 32).write BucketNode.layout f.newNodeAddr newNode
    if ¬ prevAddr.eqv .null then
      let prevNode := b.mem.read BucketNode.layout prevAddr
      guard (prevNode.next.eqv .null)
      return (true, b.write BucketNode.layout prevAddr { prevNode with next := f.newNodeAddr })
    else
      guard (b.head.eqv .null)
      return (true, { b with head := f.newNodeAddr })

/-- `SearchNode`: the list of arrays, if the key is found. -/
def searchNode (fuel : ℕ) (b : BucketHeader) (key : IndexKey) : Option (Option GAddr) := do
  let (curAddr, _, curNode) ← find b.mem key fuel b.head .null ⟨key, .null, .null⟩
  if ¬ curAddr.eqv .null then return some curNode.itemsList
  return none

end BucketHeader

end Database

end Ting
