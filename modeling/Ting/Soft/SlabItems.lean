/-
# `Ting.Soft.SlabItems` — the slab allocator with its items

`slabs_init` makes size classes, each larger than the last by a factor, and every class cuts pages
of a line into chunks of its size.  An *item* is what the allocator knows of a chunk; it is looked
up by the chunk's address, and the items of the free chunks of a class are linked into its free
list.

Addresses and sizes are natural numbers, while `sl_curr` has 32 bits and `mem_malloced` 64.  Left
out are what is only counted (`requested`, `mem_free`), the flags of an item, and the growth of the
array of pages, which is taken not to fail.  `Ting.Soft.Slabs` has the allocator of the shipped
configurations without its items; here it may have any factor, and blocks are freed.
-/
import Ting.Lib.Rounding
import Ting.Lib.Transition
import Ting.Soft.Slabs

namespace Ting

namespace Slab

open SlabAllocator (itemSizeMax powerLargestMax)

/-- `POWER_SMALLEST`. -/
def powerSmallest : ℕ := 1

/-- `item`; a pointer to one is its number, in the order in which they are made. -/
structure Item where
  next : Option ℕ
  prev : Option ℕ
  size : ℕ
  slabsClsid : ℕ
  data : ℕ
  deriving DecidableEq

/-- `new item()`. -/
def Item.new : Item := ⟨none, none, 0, 0, 0⟩

/-- `slabclass_t`. -/
structure Class where
  size : ℕ
  perslab : ℕ
  slots : Option ℕ
  slCurr : ℕ
  /-- `slab_list`, of length `slabs`. -/
  slabList : List ℕ
  deriving DecidableEq

/-- A class that `memset` has cleared. -/
def Class.cleared : Class := ⟨0, 0, none, 0, []⟩

/-- `SlabAllocator`. -/
structure Allocator where
  slabclass : ℕ → Class
  memLimit : ℕ
  memMalloced : ℕ
  powerLargest : ℕ
  memBase : ℕ
  memCurrent : ℕ
  memAvail : ℕ
  statsMap : ℕ → Option ℕ
  items : ℕ → Item
  /-- How many items there are. -/
  itemNum : ℕ

/-- How a call fails. -/
inductive Fault
  /-- There is no memory: a null pointer is returned, or `assert(ret)` fails, or `slabs_init`
  exits. -/
  | noMemory
  /-- `assert((uint64_t)ret % block == 0)` fails. -/
  | misaligned
  /-- Another assertion fails, or a null pointer is followed. -/
  | broken
  deriving DecidableEq

/-! ## Growth factors -/

/-- A `double` that is a positive number. -/
inductive Factor
  | finite (q : ℚ)
  | infinite

namespace Factor

/-- `item_size_max / factor`. -/
def quotient : Factor → ℚ
  | finite q => Rounding.roundTo 53 (itemSizeMax / q)
  | infinite => 0

/-- `size * factor`, as it is assigned to `size`; an infinite factor is not multiplied with. -/
def product (size : ℕ) : Factor → ℕ
  | finite q => ⌊Rounding.roundTo 53 (size * q)⌋.toNat
  | infinite => 0

/-- The factors that the sizes do not shrink by. -/
def AtLeastOne : Factor → Prop
  | finite q => 1 ≤ q
  | infinite => True

end Factor

namespace Allocator

/-! ## Assignments -/

def setItem (s : Allocator) (it : ℕ) (f : Item → Item) : Allocator :=
  { s with items := Function.update s.items it (f (s.items it)) }

def setClass (s : Allocator) (id : ℕ) (f : Class → Class) : Allocator :=
  { s with slabclass := Function.update s.slabclass id (f (s.slabclass id)) }

/-- `if (it) it->prev = prev`. -/
def setPrev (s : Allocator) (it prev : Option ℕ) : Allocator :=
  match it with
  | none => s
  | some it => s.setItem it fun x => { x with prev := prev }

/-! ## Taking memory -/

/-- The loop of `slabs_clsid`, in class `res`. -/
def clsidFrom (s : Allocator) (size : ℕ) : ℕ → ℕ → ℕ
  | 0, _ => 0
  | fuel + 1, res =>
      if size > (s.slabclass res).size then
        if res = s.powerLargest then 0 else s.clsidFrom size fuel (res + 1)
      else res

/-- `slabs_clsid`. -/
def slabsClsid (s : Allocator) (size : ℕ) : ℕ :=
  if size = 0 then 0 else s.clsidFrom size s.powerLargest powerSmallest

/-- `memory_allocate`. -/
def memoryAllocate (s : Allocator) (size : ℕ) : Except Fault (Allocator × ℕ) :=
  if s.memBase = 0 ∨ size > s.memAvail then .error .noMemory
  else
    let size := if size % 8 ≠ 0 then size + (8 - size % 8) else size
    .ok ({ s with
      memCurrent := s.memCurrent + size
      memAvail := if size < s.memAvail then s.memAvail - size else 0 }, s.memCurrent)

/-- The item of an address in `stats_map`, which is made if there is none. -/
def itemAt (s : Allocator) (ptr : ℕ) : Allocator × ℕ :=
  match s.statsMap ptr with
  | some it => (s, it)
  | none => ({ s with
      statsMap := Function.update s.statsMap ptr (some s.itemNum)
      items := Function.update s.items s.itemNum Item.new
      itemNum := s.itemNum + 1 }, s.itemNum)

/-- An item put in front of the free list of a class. -/
def linkSlot (s : Allocator) (it ptr id : ℕ) : Allocator :=
  let slots := (s.slabclass id).slots
  let s := s.setItem it fun x => { x with data := ptr, prev := none, next := slots }
  let s := s.setPrev slots (some it)
  s.setClass id fun p => { p with slots := some it, slCurr := (p.slCurr + 1) % 2 ^ 32 }

/-- `do_slabs_free`. -/
def doSlabsFree (s : Allocator) (ptr id : ℕ) : Except Fault Allocator :=
  if id < powerSmallest ∨ id > s.powerLargest then .error .broken
  else
    let (s, it) := s.itemAt ptr
    .ok (s.linkSlot it ptr id)

/-- The loop of `split_slab_page_into_freelist`, with so many chunks to go. -/
def splitSlabPage (id : ℕ) : ℕ → ℕ → Allocator → Except Fault Allocator
  | 0, _, s => .ok s
  | x + 1, ptr, s => do
      let t ← s.doSlabsFree ptr id
      splitSlabPage id x (ptr + (t.slabclass id).size) t

/-- `do_slabs_newslab`; a page has `item_size_max` bytes, as `slab_reassign` is set. -/
def doSlabsNewslab (s : Allocator) (id : ℕ) : Except Fault Allocator :=
  if s.memLimit ≠ 0 ∧ (s.memMalloced + itemSizeMax) % 2 ^ 64 > s.memLimit ∧
      (s.slabclass id).slabList.length > 0 then .error .noMemory
  else do
    let (t, ptr) ← s.memoryAllocate itemSizeMax
    let u ← splitSlabPage id (t.slabclass id).perslab ptr t
    .ok { u.setClass id fun p => { p with slabList := p.slabList ++ [ptr] } with
      memMalloced := (u.memMalloced + itemSizeMax) % 2 ^ 64 }

/-- The first item of the free list of a class, taken off it. -/
def unlinkSlot (s : Allocator) (it size id : ℕ) : Allocator :=
  let next := (s.items it).next
  let s := s.setPrev next none
  let s := s.setItem it fun x => { x with size := size, slabsClsid := id % 256 }
  s.setClass id fun p => { p with slots := next, slCurr := p.slCurr - 1 }

/-- What `do_slabs_alloc` does with a free list that is not empty. -/
def takeSlot (s : Allocator) (size id : ℕ) : Except Fault (Allocator × ℕ) :=
  match (s.slabclass id).slots with
  | none => .error .broken
  | some it =>
      let t := s.unlinkSlot it size id
      .ok (t, (t.items it).data)

/-- `((item *)p->slots)->slabs_clsid == 0`. -/
def headFree (s : Allocator) (id : ℕ) : Bool :=
  (s.slabclass id).slots.any fun it => (s.items it).slabsClsid = 0

/-- `do_slabs_alloc`. -/
def doSlabsAlloc (s : Allocator) (size id : ℕ) : Except Fault (Allocator × ℕ) :=
  if id < powerSmallest ∨ id > s.powerLargest then .error .noMemory
  else if ¬ ((s.slabclass id).slCurr = 0 ∨ s.headFree id) then .error .broken
  else do
    let t ← if (s.slabclass id).slCurr ≠ 0 then .ok s else s.doSlabsNewslab id
    if (t.slabclass id).slCurr ≠ 0 then t.takeSlot size id else .error .noMemory

/-! ## The operations -/

/-- `sb_malloc`. -/
def sbMalloc (s : Allocator) (size : BitVec 64) : Except Fault (Allocator × ℕ) :=
  if s.memLimit = 0 then .error .noMemory
  else s.doSlabsAlloc size.toNat (s.slabsClsid size.toNat)

/-- `ALIGN`. -/
def align (x a : BitVec 64) : BitVec 64 := (x + (a - 1)) &&& ~~~(a - 1)

/-- `sb_aligned_malloc`. -/
def sbAlignedMalloc (s : Allocator) (size block : BitVec 64) : Except Fault (Allocator × ℕ) :=
  if s.memLimit = 0 then .error .noMemory
  else do
    let newsize := (align size block).toNat
    let (t, ret) ← s.doSlabsAlloc newsize (s.slabsClsid newsize)
    if ret % block.toNat = 0 then .ok (t, ret) else .error .misaligned

/-- `sb_free`. -/
def sbFree (s : Allocator) (ptr : ℕ) : Except Fault (Allocator × ℕ) :=
  if s.memLimit = 0 then .ok (s, 0)
  else
    match s.statsMap ptr with
    | none => .error .broken
    | some it =>
        let x := s.items it
        if x.slabsClsid ≠ s.slabsClsid x.size then .error .broken
        else do
          let t ← (s.setItem it fun x => { x with slabsClsid := 0, size := 0 }).doSlabsFree
            x.data x.slabsClsid
          .ok (t, x.size)

/-! ## `slabs_init` -/

/-- The loop of `slabs_init` over the classes.  Class `POWER_LARGEST` ends it, if nothing did
before. -/
def fillClasses (factor : Factor) : ℕ → ℕ → ℕ → ℕ → (ℕ → Class) → ℕ × (ℕ → Class)
  | 0, i, _, _, cls => (i + 1, cls)
  | fuel + 1, i, size, preSize, cls =>
      let i := i + 1
      if i < powerLargestMax ∧ size ≤ factor.quotient then
        let size := if size % 8 ≠ 0 then size + (8 - size % 8) else size
        let (i, cls) :=
          if preSize / lineSize < size / lineSize ∧ size % lineSize ≠ 0 then
            let whole := size / lineSize * lineSize
            (i + 1, Function.update cls i
              { cls i with size := whole, perslab := itemSizeMax / whole })
          else (i, cls)
        fillClasses factor fuel i (factor.product size) size
          (Function.update cls i { cls i with size := size, perslab := itemSizeMax / size })
      else (i, cls)

/-- What the loop makes of cleared classes. -/
def filledClasses (factor : Factor) : ℕ × (ℕ → Class) :=
  fillClasses factor (powerLargestMax - 1) (powerSmallest - 1) 48 48 fun _ => Class.cleared

/-- The state before `slabs_preallocate`; `malloced` is 0 or comes from the environment. -/
def blank (limit : BitVec 64) (factor : Factor) (malloced base : ℕ) : Allocator where
  slabclass := Function.update (filledClasses factor).2 (filledClasses factor).1
    { (filledClasses factor).2 (filledClasses factor).1 with size := itemSizeMax, perslab := 1 }
  memLimit := limit.toNat
  memMalloced := malloced
  powerLargest := (filledClasses factor).1
  memBase := base
  memCurrent := base
  memAvail := limit.toNat
  statsMap := fun _ => none
  items := fun _ => Item.new
  itemNum := 0

/-- `slabs_preallocate`: a page for each class from `i` on. -/
def preallocate : ℕ → ℕ → Allocator → Except Fault Allocator
  | 0, _, s => .ok s
  | k + 1, i, s => do
      let t ← s.doSlabsNewslab i
      preallocate k (i + 1) t

/-- `slabs_init`, on memory at `base`, which is 0 if there is none. -/
def slabsInit (limit : BitVec 64) (factor : Factor) (malloced base : ℕ) : Except Fault Allocator :=
  let s := blank limit factor malloced base
  preallocate (min powerLargestMax s.powerLargest) powerSmallest s

end Allocator

/-! ## Runs -/

/-- A live block: its address and the size that was asked for. -/
structure Block where
  ptr : ℕ
  size : ℕ
  deriving DecidableEq

/-- The allocator and the blocks that were handed out and not freed. -/
structure Run where
  alloc : Allocator
  live : List Block

inductive Call
  | sbMalloc (size : BitVec 64)
  | sbAlignedMalloc (size block : BitVec 64)
  | sbFree (ptr : ℕ)
  deriving DecidableEq

/-- The sizes that may be asked for. -/
def Requested (size : BitVec 64) : Prop :=
  1 ≤ size.toNat ∧ size.toNat ≤ itemSizeMax
  deriving Decidable

namespace Run

/-- The block that a call handed out. -/
def hand (r : Run) (size : BitVec 64) : Except Fault (Allocator × ℕ) → Option Run
  | .ok (s, ret) => some ⟨s, ⟨ret, size.toNat⟩ :: r.live⟩
  | .error _ => none

/-- A call that succeeds; only a live block is freed. -/
def step : Call → Run → Option Run
  | .sbMalloc size, r =>
      if Requested size then r.hand size (r.alloc.sbMalloc size) else none
  | .sbAlignedMalloc size block, r =>
      if Requested size then r.hand size (r.alloc.sbAlignedMalloc size block) else none
  | .sbFree ptr, r =>
      if ptr ∈ r.live.map Block.ptr then
        match r.alloc.sbFree ptr with
        | .ok (s, _) => some ⟨s, r.live.filter fun b => b.ptr ≠ ptr⟩
        | .error _ => none
      else none

end Run

/-- The runs from an allocator that has handed out nothing. -/
def runs (s₀ : Allocator) : TransitionSystem Run Call where
  init r := r = ⟨s₀, []⟩
  step := Run.step

end Slab

end Ting
