/-
# `Ting.Soft.Slabs` — the slab allocator and the buffers of a node

Each of the two regions of a node has a slab allocator, which keeps a free list for every size
class and refills it with a page from the end of what it has used so far.  With the growth factor
of 1 that every configuration has, all classes but the last are of the smallest size, and
`slabs_init` gives each of them a page before any buffer is handed out.

`SlabAllocator.Ready` is the state between two buffers, and from it follows the address of every
buffer that `DSM::DSM` and `Cache::initLine` take.  Left out are the bookkeeping of items, which is
looked at when a buffer is freed, and the growth of the page lists.
-/
import Ting.Soft.Config
import Mathlib.Order.CompletePartialOrder
import Mathlib.Data.Set.Basic
import Mathlib.Order.Disjoint
import Mathlib.Data.Set.Lattice

namespace Ting

/-- A pointer. -/
abbrev Ptr := BitVec 64

/-- `slabclass_t`. -/
structure SlabClass where
  size : ℕ
  perslab : ℕ
  /-- The free list, of length `sl_curr`. -/
  slots : List Ptr
  slabs : ℕ

/-- `SlabAllocator`. -/
structure SlabAllocator where
  slabclass : ℕ → SlabClass
  powerLargest : ℕ
  memLimit : BitVec 64
  memMalloced : BitVec 64
  memCurrent : Ptr
  memAvail : BitVec 64

namespace SlabAllocator

/-- `item_size_max`. -/
def itemSizeMax : ℕ := lineSize

/-- `POWER_LARGEST`. -/
def powerLargestMax : ℕ := 200

/-- The loop of `slabs_clsid`, in class `res`. -/
def clsidFrom (s : SlabAllocator) (size : ℕ) : ℕ → ℕ → ℕ
  | 0, _ => 0
  | fuel + 1, res =>
      if size > (s.slabclass res).size then
        if res = s.powerLargest then 0 else s.clsidFrom size fuel (res + 1)
      else res

/-- `slabs_clsid`. -/
def slabsClsid (s : SlabAllocator) (size : ℕ) : ℕ :=
  if size = 0 then 0 else s.clsidFrom size (s.powerLargest + 1) 1

/-- `memory_allocate`. -/
def memoryAllocate (s : SlabAllocator) (size : BitVec 64) : Option (SlabAllocator × Ptr) :=
  if size > s.memAvail then none
  else
    let size := if size % 8 ≠ 0 then size + (8 - size % 8) else size
    some ({ s with
      memCurrent := s.memCurrent + size
      memAvail := if size < s.memAvail then s.memAvail - size else 0 }, s.memCurrent)

/-- `split_slab_page_into_freelist`: each item goes in front of the list. -/
def splitSlabPage (ptr : Ptr) (size : ℕ) : ℕ → List Ptr → List Ptr
  | 0, slots => slots
  | x + 1, slots => splitSlabPage (ptr + .ofNat 64 size) size x (ptr :: slots)

/-- `do_slabs_newslab`; a page has `item_size_max` bytes, as `slab_reassign` is set. -/
def newslab (s : SlabAllocator) (id : ℕ) : Option SlabAllocator :=
  let p := s.slabclass id
  let len : BitVec 64 := .ofNat 64 itemSizeMax
  if s.memLimit ≠ 0 ∧ s.memMalloced + len > s.memLimit ∧ p.slabs > 0 then none
  else
    (s.memoryAllocate len).map fun (t, ptr) =>
      { t with
        slabclass := Function.update s.slabclass id
          { p with slots := splitSlabPage ptr p.size p.perslab p.slots, slabs := p.slabs + 1 }
        memMalloced := s.memMalloced + len }

/-- `do_slabs_alloc`. -/
def doSlabsAlloc (s : SlabAllocator) (id : ℕ) : Option (SlabAllocator × Ptr) :=
  if id < 1 ∨ id > s.powerLargest then none
  else do
    let t ← if (s.slabclass id).slots ≠ [] then some s else s.newslab id
    match (t.slabclass id).slots with
    | [] => none
    | it :: slots => some ({ t with
        slabclass := Function.update t.slabclass id { t.slabclass id with slots := slots } }, it)

/-- `ALIGN`, for a block size that is a power of two. -/
def align (size block : ℕ) : ℕ := (size + block - 1) / block * block

/-- `sb_aligned_calloc` of one item; `none` when an assertion fails. -/
def sbAlignedCalloc (s : SlabAllocator) (size block : ℕ) : Option (SlabAllocator × Ptr) :=
  if s.memLimit = 0 then none
  else do
    let (t, ret) ← s.doSlabsAlloc (s.slabsClsid (align size block))
    if ret.toNat % block = 0 then some (t, ret) else none

/-- The loop of `slabs_init` over the classes, with a growth factor of 1. -/
def fillClasses : ℕ → ℕ → ℕ → ℕ → (ℕ → SlabClass) → ℕ × (ℕ → SlabClass)
  | 0, i, _, _, cls => (i, cls)
  | fuel + 1, i, size, preSize, cls =>
      let i := i + 1
      if i < powerLargestMax ∧ size ≤ itemSizeMax then
        let size := if size % 8 ≠ 0 then size + (8 - size % 8) else size
        let (i, cls) :=
          if preSize / lineSize < size / lineSize ∧ size % lineSize ≠ 0 then
            let whole := size / lineSize * lineSize
            (i + 1, Function.update cls i { cls i with size := whole, perslab := itemSizeMax / whole })
          else (i, cls)
        fillClasses fuel i size size
          (Function.update cls i { cls i with size := size, perslab := itemSizeMax / size })
      else (i, cls)

/-- `slabs_preallocate`: a page for each class from `i` on. -/
def preallocate : ℕ → ℕ → SlabAllocator → Option SlabAllocator
  | 0, _, s => some s
  | k + 1, i, s => (s.newslab i).bind (preallocate k (i + 1))

/-- What the loop of `slabs_init` makes of cleared classes. -/
def filledClasses : ℕ × (ℕ → SlabClass) :=
  fillClasses powerLargestMax 0 48 48 (fun _ => ⟨0, 0, [], 0⟩)

/-- The state before `slabs_preallocate`; `malloced` is 0 or comes from the environment. -/
def blank (limit malloced : BitVec 64) (base : Ptr) : SlabAllocator where
  slabclass := Function.update filledClasses.2 filledClasses.1
    { filledClasses.2 filledClasses.1 with size := itemSizeMax, perslab := 1 }
  powerLargest := filledClasses.1
  memLimit := limit
  memMalloced := malloced
  memCurrent := base
  memAvail := limit

/-- `slabs_init`, on memory at `base`. -/
def slabsInit (limit malloced : BitVec 64) (base : Ptr) : Option SlabAllocator :=
  let s := blank limit malloced base
  preallocate (min powerLargestMax s.powerLargest) 1 s

/-- A loop that takes `n` buffers of a line each. -/
def takeLines : ℕ → SlabAllocator → Option (SlabAllocator × List Ptr)
  | 0, s => some (s, [])
  | n + 1, s => do
      let (t, ptr) ← s.sbAlignedCalloc lineSize lineSize
      let (u, ptrs) ← takeLines n t
      some (u, ptr :: ptrs)

end SlabAllocator

/-- The buffers that the constructor of `DSM` takes for the blocks and `Cache::initLine` for the
lines, each in order, when the data of the node starts at `base`. -/
def DSMConfig.buffers (c : DSMConfig) (malloced : BitVec 64) (base : Ptr) :
    Option (List Ptr × List Ptr) := do
  let gblockDataSb ← SlabAllocator.slabsInit (.ofNat 64 (c.gmemSizePerNode.toNat * 3 / 2)) malloced base
  let clineDataSb ← SlabAllocator.slabsInit (.ofNat 64 (c.cacheSizePerNode.toNat * 3 / 2)) malloced
    (base + c.gmemSizePerNode)
  let (_, gblockData) ← SlabAllocator.takeLines c.gblocks gblockDataSb
  let (_, clineData) ← SlabAllocator.takeLines c.clines clineDataSb
  some (gblockData, clineData)

namespace SlabAllocator

/-! ## The size classes -/

/-- Class `j` once the loop of `slabs_init` has passed it. -/
def smallClass (p : SlabClass) : SlabClass :=
  { p with size := 48, perslab := 85 }

/-- With a growth factor of 1 the loop gives every class the smallest size. -/
theorem fillClasses_eq {fuel i : ℕ} {cls : ℕ → SlabClass} (h : i + fuel = powerLargestMax) :
    (fillClasses fuel i 48 48 cls).1 = powerLargestMax ∧
      ∀ j, (fillClasses fuel i 48 48 cls).2 j =
        if i < j ∧ j < powerLargestMax then smallClass (cls j) else cls j := by
  induction fuel generalizing i cls with
  | zero =>
      refine ⟨h, fun j => ?_⟩
      rw [fillClasses, if_neg (by omega)]
  | succ fuel ih =>
      rcases Nat.lt_or_ge (i + 1) powerLargestMax with hi | hi
      · have hstep : fillClasses (fuel + 1) i 48 48 cls = fillClasses fuel (i + 1) 48 48
            (Function.update cls (i + 1) (smallClass (cls (i + 1)))) := by
          rw [fillClasses, if_pos ⟨hi, by decide⟩]
          rfl
        have hnext : i + 1 + fuel = powerLargestMax := by omega
        obtain ⟨hmax, hcls⟩ := @ih (i + 1) (Function.update cls (i + 1) (smallClass (cls (i + 1))))
          hnext
        rw [hstep]
        refine ⟨hmax, fun j => ?_⟩
        rw [hcls]
        rcases eq_or_ne j (i + 1) with rfl | hj
        · rw [if_neg (by omega), if_pos (by omega), Function.update_self]
        · rw [Function.update_of_ne hj]
          congr 1
          exact propext ⟨fun hx => ⟨by omega, hx.2⟩, fun hx => ⟨by omega, hx.2⟩⟩
      · have hfuel : fuel = 0 := by omega
        subst hfuel
        rw [fillClasses, if_neg (by omega)]
        refine ⟨by omega, fun j => ?_⟩
        rw [if_neg (by omega)]

/-- The classes after `slabs_init`: a last one for whole lines, and small ones below it. -/
structure Classes (s : SlabAllocator) : Prop where
  last : s.powerLargest = powerLargestMax
  small : ∀ j, 1 ≤ j → j < powerLargestMax → (s.slabclass j).size = 48
  line : (s.slabclass powerLargestMax).size = lineSize
  perslab : (s.slabclass powerLargestMax).perslab = 1

theorem filledClasses_fst : filledClasses.1 = powerLargestMax :=
  (fillClasses_eq (Nat.zero_add _)).1

theorem filledClasses_snd (j : ℕ) : filledClasses.2 j =
    if 0 < j ∧ j < powerLargestMax then smallClass ⟨0, 0, [], 0⟩ else ⟨0, 0, [], 0⟩ :=
  (fillClasses_eq (Nat.zero_add _)).2 j

theorem blank_slabclass (limit malloced : BitVec 64) (base : Ptr) (j : ℕ) :
    (blank limit malloced base).slabclass j =
      if j = powerLargestMax then ⟨itemSizeMax, 1, [], 0⟩ else filledClasses.2 j := by
  simp only [blank, filledClasses_fst]
  split
  next h =>
    rw [h, Function.update_self, filledClasses_snd, if_neg (fun hx => Nat.lt_irrefl _ hx.2)]
  next h => rw [Function.update_of_ne h]

theorem blank_classes (limit malloced : BitVec 64) (base : Ptr) :
    Classes (blank limit malloced base) where
  last := filledClasses_fst
  small := fun j h1 h2 => by
    rw [blank_slabclass, if_neg (Nat.ne_of_lt h2), filledClasses_snd, if_pos ⟨h1, h2⟩]
    rfl
  line := by rw [blank_slabclass, if_pos rfl]; rfl
  perslab := by rw [blank_slabclass, if_pos rfl]

/-! ## Pages -/

/-- What a new page changes. -/
structure Paged (s t : SlabAllocator) (id : ℕ) : Prop where
  classes : Classes s → Classes t
  slots : (t.slabclass id).slots = splitSlabPage s.memCurrent (s.slabclass id).size
    (s.slabclass id).perslab (s.slabclass id).slots
  other : ∀ j, j ≠ id → t.slabclass j = s.slabclass j
  memCurrent : t.memCurrent = s.memCurrent + .ofNat 64 lineSize
  memLimit : t.memLimit = s.memLimit
  memMalloced : t.memMalloced = s.memMalloced + .ofNat 64 lineSize
  memAvail : t.memAvail = if .ofNat 64 lineSize < s.memAvail then s.memAvail - .ofNat 64 lineSize
    else 0

theorem memoryAllocate_line (s : SlabAllocator) :
    s.memoryAllocate (.ofNat 64 itemSizeMax) =
      if .ofNat 64 lineSize > s.memAvail then none
      else some ({ s with
        memCurrent := s.memCurrent + .ofNat 64 lineSize
        memAvail := if .ofNat 64 lineSize < s.memAvail then s.memAvail - .ofNat 64 lineSize
          else 0 }, s.memCurrent) := rfl

theorem Paged.of_newslab {s t : SlabAllocator} {id : ℕ} (h : s.newslab id = some t) :
    Paged s t id := by
  simp only [newslab, Option.ite_none_left_eq_some, Option.map_eq_some_iff] at h
  obtain ⟨-, ⟨u, ptr⟩, hmem, rfl⟩ := h
  rw [memoryAllocate_line, Option.ite_none_left_eq_some] at hmem
  obtain ⟨-, hmem⟩ := hmem
  cases hmem
  have hclass : ∀ j, (Function.update s.slabclass id
      { s.slabclass id with
        slots := splitSlabPage s.memCurrent (s.slabclass id).size (s.slabclass id).perslab
          (s.slabclass id).slots
        slabs := (s.slabclass id).slabs + 1 } j).size = (s.slabclass j).size ∧
      (Function.update s.slabclass id
      { s.slabclass id with
        slots := splitSlabPage s.memCurrent (s.slabclass id).size (s.slabclass id).perslab
          (s.slabclass id).slots
        slabs := (s.slabclass id).slabs + 1 } j).perslab = (s.slabclass j).perslab := by
    intro j
    rcases eq_or_ne j id with rfl | hj
    · rw [Function.update_self]; exact ⟨rfl, rfl⟩
    · rw [Function.update_of_ne hj]; exact ⟨rfl, rfl⟩
  refine ⟨fun hc => ⟨hc.last, fun j h1 h2 => ?_, ?_, ?_⟩, ?_, fun j hj => ?_, rfl, rfl, rfl, rfl⟩
  · exact (hclass j).1.trans (hc.small j h1 h2)
  · exact (hclass _).1.trans hc.line
  · exact (hclass _).2.trans hc.perslab
  · show (Function.update s.slabclass id _ id).slots = _
    rw [Function.update_self]
  · exact Function.update_of_ne hj _ _

/-- There is a new page as long as neither limit is reached. -/
theorem newslab_isSome {s : SlabAllocator} (id : ℕ)
    (hlimit : s.memMalloced + .ofNat 64 lineSize ≤ s.memLimit)
    (havail : .ofNat 64 lineSize ≤ s.memAvail) : (s.newslab id).isSome := by
  rw [newslab, if_neg (fun h => BitVec.not_lt.mpr hlimit h.2.1), memoryAllocate_line,
    if_neg (BitVec.not_lt.mpr havail)]
  rfl

/-- There is room for `k` more pages. -/
structure Room (s : SlabAllocator) (k : ℕ) : Prop where
  limit : s.memLimit ≠ 0
  malloced : s.memMalloced.toNat + k * lineSize ≤ s.memLimit.toNat
  avail : k * lineSize ≤ s.memAvail.toNat

theorem Room.newslab {s : SlabAllocator} {k : ℕ} (h : Room s (k + 1)) (id : ℕ) :
    ∃ t, s.newslab id = some t ∧ Room t k := by
  have hl := s.memLimit.isLt
  have ha := s.memAvail.isLt
  obtain ⟨h0, h1, h2⟩ := h
  rw [Nat.add_mul] at h1 h2
  have hline : (BitVec.ofNat 64 lineSize).toNat = lineSize := rfl
  have hadd : (s.memMalloced + .ofNat 64 lineSize).toNat = s.memMalloced.toNat + lineSize := by
    rw [BitVec.toNat_add, hline]
    omega
  obtain ⟨t, ht⟩ := Option.isSome_iff_exists.mp (newslab_isSome (s := s) id
    (by rw [BitVec.le_def, hadd]; omega) (by rw [BitVec.le_def, hline]; omega))
  have hp := Paged.of_newslab ht
  refine ⟨t, ht, hp.memLimit ▸ h0, ?_, ?_⟩
  · rw [hp.memMalloced, hp.memLimit, hadd]
    omega
  · rw [hp.memAvail]
    split
    next h =>
      rw [BitVec.toNat_sub_of_le (BitVec.le_of_lt h), hline]
      omega
    next h =>
      rw [BitVec.not_lt, BitVec.le_def, hline] at h
      show _ ≤ 0
      omega

/-! ## The buffers, one after the other -/

/-- The `k`-th buffer of a line on memory at `base`: behind a page for each of the small classes. -/
def bufferAt (base : Ptr) (k : ℕ) : Ptr :=
  base + .ofNat 64 ((powerLargestMax - 1 + k) * lineSize)

theorem bufferAt_succ (base : Ptr) (k : ℕ) :
    bufferAt base k + .ofNat 64 lineSize = bufferAt base (k + 1) := by
  rw [bufferAt, bufferAt, BitVec.add_assoc, ← BitVec.ofNat_add, ← Nat.add_assoc, Nat.succ_mul]

/-- The allocator when the next buffer is the `k`-th: it is on the free list, or the free list is
empty and it is the next page. -/
structure Ready (s : SlabAllocator) (base : Ptr) (k : ℕ) : Prop where
  classes : Classes s
  next : (s.slabclass powerLargestMax).slots = [bufferAt base k] ∧
      s.memCurrent = bufferAt base (k + 1) ∨
    (s.slabclass powerLargestMax).slots = [] ∧ s.memCurrent = bufferAt base k

/-- Preallocation ends with the first buffer on the free list. -/
theorem Ready.of_preallocate {base : Ptr} {k i : ℕ} {s t : SlabAllocator} (hc : Classes s)
    (hi : i + k = powerLargestMax) (hslots : (s.slabclass powerLargestMax).slots = [])
    (hcur : s.memCurrent = base + .ofNat 64 ((i - 1) * lineSize)) (h1 : 1 ≤ i)
    (h : preallocate (k + 1) i s = some t) : Ready t base 0 := by
  induction k generalizing i s with
  | zero =>
      have hlast : i = powerLargestMax := hi
      subst hlast
      simp only [preallocate, Option.bind_eq_some_iff, Option.some.injEq] at h
      obtain ⟨u, hu, rfl⟩ := h
      have hp := Paged.of_newslab hu
      refine ⟨hp.classes hc, .inl ⟨?_, ?_⟩⟩
      · rw [hp.slots, hc.perslab, hslots, hcur]
        rfl
      · rw [hp.memCurrent, hcur, ← bufferAt_succ]
        rfl
  | succ k ih =>
      obtain ⟨u, hu, hrest⟩ := Option.bind_eq_some_iff.mp h
      have hp := Paged.of_newslab hu
      refine ih (hp.classes hc) (by omega) ?_ ?_ (Nat.le_add_left 1 i) hrest
      · rw [hp.other _ (by omega), hslots]
      · rw [hp.memCurrent, hcur, BitVec.add_assoc, ← BitVec.ofNat_add, ← Nat.succ_mul]
        congr 3
        omega

theorem Ready.of_slabsInit {limit malloced : BitVec 64} {base : Ptr} {t : SlabAllocator}
    (h : slabsInit limit malloced base = some t) : Ready t base 0 := by
  have hc := blank_classes limit malloced base
  have hmin : min powerLargestMax (blank limit malloced base).powerLargest = 199 + 1 := by
    rw [hc.last]
    exact Nat.min_self _
  rw [slabsInit, hmin] at h
  refine Ready.of_preallocate hc rfl ?_ ?_ le_rfl h
  · rw [blank_slabclass, if_pos rfl]
  · exact (BitVec.add_zero base).symm

/-- A request for a line is served from the last class. -/
theorem clsidFrom_line {s : SlabAllocator} (hc : Classes s) {fuel res : ℕ} (h1 : 1 ≤ res)
    (h2 : res ≤ powerLargestMax) (hf : powerLargestMax < fuel + res) :
    s.clsidFrom lineSize fuel res = powerLargestMax := by
  induction fuel generalizing res with
  | zero => omega
  | succ fuel ih =>
      rcases Nat.lt_or_eq_of_le h2 with hlt | rfl
      · rw [clsidFrom, hc.small res h1 hlt, if_pos (by decide), hc.last,
          if_neg (Nat.ne_of_lt hlt)]
        exact ih (Nat.le_succ_of_le h1) hlt (by omega)
      · rw [clsidFrom, hc.line, if_neg (Nat.lt_irrefl _)]

theorem slabsClsid_line {s : SlabAllocator} (hc : Classes s) :
    s.slabsClsid (align lineSize lineSize) = powerLargestMax := by
  show (if lineSize = 0 then 0 else s.clsidFrom lineSize (s.powerLargest + 1) 1) = _
  rw [if_neg (by decide), hc.last]
  exact clsidFrom_line hc le_rfl (by decide) (by omega)

/-- The buffer on the free list is taken off it. -/
def pop (s : SlabAllocator) : SlabAllocator :=
  { s with
    slabclass := Function.update s.slabclass powerLargestMax
      { s.slabclass powerLargestMax with slots := [] } }

theorem pop_ready {s : SlabAllocator} {base : Ptr} {k : ℕ} (hc : Classes s)
    (hcur : s.memCurrent = bufferAt base k) : Ready s.pop base k := by
  have hother : ∀ j, j ≠ powerLargestMax → s.pop.slabclass j = s.slabclass j := fun j hj =>
    Function.update_of_ne hj _ _
  have hself : s.pop.slabclass powerLargestMax =
      { s.slabclass powerLargestMax with slots := [] } := by
    simp only [pop, Function.update_self]
  refine ⟨⟨hc.last, fun j h1 h2 => ?_, ?_, ?_⟩, .inr ⟨?_, hcur⟩⟩
  · rw [hother j (Nat.ne_of_lt h2)]
    exact hc.small j h1 h2
  · rw [hself]
    exact hc.line
  · rw [hself]
    exact hc.perslab
  · rw [hself]

/-- The last class gives out the next buffer, from a new page if its free list is empty. -/
theorem Ready.alloc {s : SlabAllocator} {base : Ptr} {k : ℕ} (h : Ready s base k) :
    (s.doSlabsAlloc powerLargestMax = none ∧ s.newslab powerLargestMax = none) ∨
      ∃ t, s.doSlabsAlloc powerLargestMax = some (t.pop, bufferAt base k) ∧
        Ready t.pop base (k + 1) ∧ (t = s ∨ s.newslab powerLargestMax = some t) := by
  obtain ⟨hc, hnext⟩ := h
  have hid : ¬ (powerLargestMax < 1 ∨ powerLargestMax > s.powerLargest) := by
    rw [hc.last]
    decide
  rcases hnext with ⟨hslots, hcur⟩ | ⟨hslots, hcur⟩
  · refine .inr ⟨s, ?_, pop_ready hc hcur, .inl rfl⟩
    rw [doSlabsAlloc, if_neg hid, hslots]
    simp only [ne_eq, List.cons_ne_nil, not_false_eq_true, if_true, Option.bind_eq_bind,
      Option.bind_some, hslots]
    rfl
  · cases hnew : s.newslab powerLargestMax with
    | none =>
        left
        rw [doSlabsAlloc, if_neg hid, hslots, if_neg (fun hx => hx rfl), hnew]
        exact ⟨rfl, rfl⟩
    | some t =>
        have hp := Paged.of_newslab hnew
        have hslots' : (t.slabclass powerLargestMax).slots = [bufferAt base k] := by
          rw [hp.slots, hc.perslab, hslots, hcur]
          rfl
        refine .inr ⟨t, ?_, pop_ready (hp.classes hc) ?_, .inr rfl⟩
        · rw [doSlabsAlloc, if_neg hid, hslots, if_neg (fun hx => hx rfl), hnew]
          simp only [Option.bind_eq_bind, Option.bind_some, hslots']
          rfl
        · rw [hp.memCurrent, hcur, bufferAt_succ]

theorem Ready.calloc {s t : SlabAllocator} {base ptr : Ptr} {k : ℕ} (h : Ready s base k)
    (ht : s.sbAlignedCalloc lineSize lineSize = some (t, ptr)) :
    ptr = bufferAt base k ∧ Ready t base (k + 1) := by
  simp only [sbAlignedCalloc, slabsClsid_line h.classes, Option.ite_none_left_eq_some,
    Option.bind_eq_bind, Option.bind_eq_some_iff] at ht
  obtain ⟨-, ⟨t', ptr'⟩, hdo, hret⟩ := ht
  rw [Option.ite_none_right_eq_some] at hret
  cases hret.2
  rcases h.alloc with ⟨hnone, -⟩ | ⟨u, hsome, hready, -⟩
  · rw [hnone] at hdo
    cases hdo
  · rw [hsome] at hdo
    cases hdo
    exact ⟨rfl, hready⟩

/-- The buffers that a loop takes. -/
theorem Ready.takeLines {s t : SlabAllocator} {base : Ptr} {k n : ℕ} {ptrs : List Ptr}
    (h : Ready s base k) (ht : SlabAllocator.takeLines n s = some (t, ptrs)) :
    ptrs = (List.range' k n).map (bufferAt base) := by
  induction n generalizing s k ptrs with
  | zero =>
      cases ht
      rfl
  | succ n ih =>
      simp only [SlabAllocator.takeLines, Option.bind_eq_bind, Option.bind_eq_some_iff] at ht
      obtain ⟨⟨u, ptr⟩, hone, ⟨v, rest⟩, hrest, heq⟩ := ht
      cases heq
      obtain ⟨rfl, hready⟩ := h.calloc hone
      rw [ih hready hrest]
      rfl

theorem Room.mono {s : SlabAllocator} {k k' : ℕ} (h : Room s k) (hk : k' ≤ k) : Room s k' := by
  have := Nat.mul_le_mul_right lineSize hk
  exact ⟨h.limit, by have := h.malloced; omega, by have := h.avail; omega⟩

theorem Room.pop {s : SlabAllocator} {k : ℕ} (h : Room s k) : Room s.pop k :=
  ⟨h.limit, h.malloced, h.avail⟩

theorem bufferAt_aligned {base : Ptr} (hbase : base.toNat % lineSize = 0) (k : ℕ) :
    (bufferAt base k).toNat % lineSize = 0 := by
  simp only [bufferAt, BitVec.toNat_add, BitVec.toNat_ofNat, lineSize] at hbase ⊢
  omega

/-- With room for a page for each of them the loop does not fail. -/
theorem Ready.takeLines_some {s : SlabAllocator} {base : Ptr} {k n : ℕ} (h : Ready s base k)
    (hr : Room s n) (hbase : base.toNat % lineSize = 0) :
    ∃ t ptrs, SlabAllocator.takeLines n s = some (t, ptrs) := by
  induction n generalizing s k with
  | zero => exact ⟨s, [], rfl⟩
  | succ n ih =>
      obtain ⟨u, hu, hroom⟩ := hr.newslab powerLargestMax
      obtain ⟨t, hdo, hready, ht⟩ := h.alloc.resolve_left (fun hx => by rw [hu] at hx; cases hx.2)
      have hpop : Room t.pop n := by
        rcases ht with rfl | ht
        · exact (hr.mono (Nat.le_succ n)).pop
        · rw [hu] at ht
          cases ht
          exact hroom.pop
      obtain ⟨v, ptrs, hrest⟩ := ih hready hpop
      refine ⟨v, bufferAt base k :: ptrs, ?_⟩
      simp only [SlabAllocator.takeLines, sbAlignedCalloc, slabsClsid_line h.classes, hr.limit,
        if_false, hdo, Option.bind_eq_bind, Option.bind_some, bufferAt_aligned hbase, if_true, hrest]

theorem preallocate_some {s : SlabAllocator} {k n : ℕ} (i : ℕ) (hr : Room s (k + n)) :
    ∃ t, preallocate k i s = some t ∧ Room t n := by
  induction k generalizing i s with
  | zero => exact ⟨s, rfl, hr.mono (Nat.le_add_left n 0)⟩
  | succ k ih =>
      rw [Nat.add_right_comm] at hr
      obtain ⟨u, hu, hroom⟩ := hr.newslab i
      obtain ⟨t, ht, hroom'⟩ := ih (i + 1) hroom
      exact ⟨t, by rw [preallocate, hu]; exact ht, hroom'⟩

/-- With room for the pages of the small classes as well, `slabs_init` does not fail either. -/
theorem slabsInit_some {limit : BitVec 64} {n : ℕ} (base : Ptr)
    (h : (powerLargestMax + n) * lineSize ≤ limit.toNat) :
    ∃ t, slabsInit limit 0 base = some t ∧ Room t n := by
  have hmin : min powerLargestMax (blank limit 0 base).powerLargest = powerLargestMax := by
    rw [(blank_classes limit 0 base).last]
    exact Nat.min_self _
  rw [slabsInit, hmin]
  refine preallocate_some 1 ⟨?_, ?_, h⟩
  · rintro rfl
    have : (blank 0 0 base).memLimit = 0 := rfl
    simp only [powerLargestMax, lineSize] at h
    have h0 : (0 : BitVec 64).toNat = 0 := rfl
    omega
  · show 0 + _ ≤ limit.toNat
    omega

end SlabAllocator

/-! ## Disjoint buffers -/

/-- The bytes of a buffer of a line. -/
def bufferBytes (ptr : Ptr) : Set Ptr :=
  {a | (a - ptr).toNat < lineSize}

/-- Buffers at two offsets from one address are disjoint if a line fits between them both ways
round. -/
theorem bufferBytes_disjoint {base : Ptr} {x y : ℕ} (hxy : x + lineSize ≤ y)
    (hyx : y + lineSize ≤ x + 2 ^ 64) :
    Disjoint (bufferBytes (base + .ofNat 64 x)) (bufferBytes (base + .ofNat 64 y)) := by
  rw [Set.disjoint_left]
  intro a hx hy
  simp only [bufferBytes, Set.mem_ofPred_eq, BitVec.toNat_sub, BitVec.toNat_add,
    BitVec.toNat_ofNat, lineSize] at hx hy hxy hyx
  have := a.isLt
  have := base.isLt
  omega

/-- Two buffers of one allocator are disjoint, if it is not to give out millions more. -/
theorem bufferAt_disjoint {base : Ptr} {n : ℕ} (hn : n ≤ 5000000) :
    ((List.range' 0 n).map (SlabAllocator.bufferAt base)).Pairwise
      fun a b => Disjoint (bufferBytes a) (bufferBytes b) := by
  refine List.pairwise_map.mpr (List.Pairwise.imp_of_mem ?_ List.pairwise_lt_range')
  intro j k _ hk hjk
  have hlt : k < 0 + 1 * n := (List.mem_range'_1.mp hk).2.trans_eq (by omega)
  refine bufferBytes_disjoint ?_ ?_
  · simp only [lineSize]
    omega
  · simp only [lineSize, SlabAllocator.powerLargestMax]
    omega

namespace DSMConfig

/-- The buffers of a node are those at the addresses that the two allocators give out. -/
theorem buffers_eq {c : DSMConfig} {malloced : BitVec 64} {base : Ptr}
    {gblockData clineData : List Ptr} (h : c.buffers malloced base = some (gblockData, clineData)) :
    gblockData = (List.range' 0 c.gblocks).map (SlabAllocator.bufferAt base) ∧
      clineData = (List.range' 0 c.clines).map
        (SlabAllocator.bufferAt (base + c.gmemSizePerNode)) := by
  simp only [buffers, Option.bind_eq_bind, Option.bind_eq_some_iff] at h
  obtain ⟨gsb, hg, csb, hc, ⟨gsb', gs⟩, hgs, ⟨csb', cs⟩, hcs, heq⟩ := h
  cases heq
  exact ⟨(SlabAllocator.Ready.of_slabsInit hg).takeLines hgs,
    (SlabAllocator.Ready.of_slabsInit hc).takeLines hcs⟩

theorem bufferAt_add (base x : Ptr) (k : ℕ) : SlabAllocator.bufferAt (base + x) k =
    base + .ofNat 64 (x.toNat + (SlabAllocator.powerLargestMax - 1 + k) * lineSize) := by
  rw [SlabAllocator.bufferAt, BitVec.ofNat_add, BitVec.ofNat_toNat, BitVec.setWidth_eq,
    BitVec.add_assoc]

/-- The block buffers and the line buffers of a node are disjoint, all of them.  The two regions
may overlap all the same: a region of whole megabytes holds as many blocks as it has lines, but
the first buffer of either comes only after the pages of the small classes. -/
theorem buffers_disjoint {uNodeNum uAppt uSyst : BitVec 32} {uGmem uCache : BitVec 64}
    {c : DSMConfig} (hc : DSMConfig.new uNodeNum uAppt uSyst uGmem uCache = some c)
    {malloced : BitVec 64} {base : Ptr} {gblockData clineData : List Ptr}
    (h : c.buffers malloced base = some (gblockData, clineData)) :
    gblockData.length = c.gblocks ∧ clineData.length = c.clines ∧
      (gblockData ++ clineData).Pairwise fun a b => Disjoint (bufferBytes a) (bufferBytes b) := by
  obtain ⟨rfl, rfl⟩ := buffers_eq h
  have hcl := clines_le hc
  refine ⟨by rw [List.length_map, List.length_range'], by rw [List.length_map, List.length_range'],
    List.pairwise_append.mpr ⟨bufferAt_disjoint (gblocks_le hc), bufferAt_disjoint hcl,
      fun a ha b hb => ?_⟩⟩
  obtain ⟨j, hj, rfl⟩ := List.mem_map.mp ha
  obtain ⟨k, hk, rfl⟩ := List.mem_map.mp hb
  have hj : j < c.gblocks := (List.mem_range'_1.mp hj).2.trans_eq (Nat.zero_add _)
  have hk : k < c.clines := (List.mem_range'_1.mp hk).2.trans_eq (Nat.zero_add _)
  -- there is a block, so nothing has wrapped around
  obtain ⟨hfit, hroom⟩ := gblocks_fit hc (Nat.zero_lt_of_lt hj)
  rw [bufferAt_add]
  generalize c.gmemSizePerNode.toNat = g at hfit hroom ⊢
  have hlast : (j + 1) * lineSize ≤ g := (Nat.mul_le_mul_right _ hj).trans hfit
  simp only [lineSize] at hlast
  refine bufferBytes_disjoint ?_ ?_ <;>
    simp only [lineSize, SlabAllocator.powerLargestMax] <;> omega

/-- A configuration of one node: 200 MB and 58 lines of global memory. -/
def overrun : DSMConfig :=
  compute 1 1 1 (.ofNat 64 (200 * mb + 58 * lineSize)) (.ofNat 64 (200 * mb))

theorem overrun_accepted :
    DSMConfig.new 1 1 1 (.ofNat 64 (200 * mb + 58 * lineSize)) (.ofNat 64 (200 * mb))
      = some overrun := by
  decide

/-- Where the data of that node starts. -/
def overrunBase : Ptr := .ofNat 64 (2 ^ 40)

theorem overrun_buffers : ∃ gblockData clineData,
    overrun.buffers 0 overrunBase = some (gblockData, clineData) := by
  have hg : overrun.gmemSizePerNode.toNat = 201 * mb := by decide
  have hc : overrun.cacheSizePerNode.toNat = 201 * mb := by decide
  have hgn : overrun.gblocks = 51258 := by decide
  have hcn : overrun.clines = 51200 := by decide
  have hroom : (SlabAllocator.powerLargestMax + 51258) * lineSize ≤
      (BitVec.ofNat 64 (201 * mb * 3 / 2)).toNat := by decide
  obtain ⟨gsb, hgsb, hgroom⟩ := SlabAllocator.slabsInit_some overrunBase hroom
  obtain ⟨csb, hcsb, hcroom⟩ :=
    SlabAllocator.slabsInit_some (overrunBase + overrun.gmemSizePerNode) hroom
  obtain ⟨gsb', gs, hgs⟩ := (SlabAllocator.Ready.of_slabsInit hgsb).takeLines_some hgroom (by decide)
  obtain ⟨csb', cs, hcs⟩ := (SlabAllocator.Ready.of_slabsInit hcsb).takeLines_some
    (show SlabAllocator.Room csb 51200 from hcroom.mono (by decide)) (by decide)
  refine ⟨gs, cs, ?_⟩
  simp only [buffers, hg, hc, hgn, hcn, hgsb, hcsb, hgs, hcs, Option.bind_eq_bind, Option.bind_some]

/-- Its buffers are disjoint. -/
theorem buffers_disjoint_overrun : ∃ gblockData clineData,
    overrun.buffers 0 overrunBase = some (gblockData, clineData) ∧
      (gblockData ++ clineData).Pairwise
        fun a b => Disjoint (bufferBytes a) (bufferBytes b) := by
  obtain ⟨gs, cs, h⟩ := overrun_buffers
  exact ⟨gs, cs, h, (buffers_disjoint overrun_accepted h).2.2⟩

/-- Yet its last block buffer is the line at `cline_data_base_addr`. -/
theorem block_at_clineDataBaseAddr : ∃ gblockData clineData,
    overrun.buffers 0 overrunBase = some (gblockData, clineData) ∧
      overrunBase + overrun.gmemSizePerNode ∈ gblockData := by
  obtain ⟨gs, cs, h⟩ := overrun_buffers
  refine ⟨gs, cs, h, ?_⟩
  have hn : overrun.gblocks = 51258 := by decide
  rw [(buffers_eq h).1, hn]
  refine List.mem_map.mpr ⟨51257, List.mem_range'_1.mpr ⟨by omega, by omega⟩, ?_⟩
  decide

end DSMConfig

end Ting
