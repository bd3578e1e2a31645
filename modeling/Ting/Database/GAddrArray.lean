/-
# `Ting.Database.GAddrArray` — an array in global memory

A `GAddrArray` has its elements in segments of 1024 and finds a segment through a tree of tables
that have 1024 pointers each.  `Init` allocates the tables and the segments layer by layer, and it
finds the table that is to point to a new one in the part of the tree that it has built.

A run keeps a record of the regions that it has allocated and of its accesses, the latest first.
-/
import Ting.Database.Memory
import Ting.Soft.Allocators
import Mathlib.Tactic.IntervalCases

namespace Ting

namespace Database

/-! ## Runs -/

/-- A call of `Read` or `Write`, for a pointer. -/
inductive Access
  | read (slot : GAddr)
  | write (slot : GAddr)

/-- Memory, and what the run has done to it. -/
structure Run where
  mem : Memory
  regions : List Region
  accesses : List Access

namespace Run

/-- `AlignedMalloc`; `alloc i` is what call `i` returns. -/
def alignedMalloc (alloc : ℕ → GAddr) (size : BitVec 64) (s : Run) : GAddr × Run :=
  let a := alloc s.regions.length
  (a, { s with regions := ⟨a, size⟩ :: s.regions })

/-- `Read` of a pointer. -/
def readPointer (slot : GAddr) (s : Run) : GAddr × Run :=
  (s.mem.read gaddr slot, { s with accesses := .read slot :: s.accesses })

/-- `Write` of a pointer. -/
def writePointer (slot x : GAddr) (s : Run) : Run :=
  { s with mem := s.mem.write gaddr slot x, accesses := .write slot :: s.accesses }

end Run

/-! ## Arrays -/

structure GAddrArray where
  rootAddr : GAddr
  arraySize : BitVec 64
  elementSize : BitVec 64
  layerSize : Fin 4 → BitVec 64
  layerNum : BitVec 64

namespace GAddrArray

/-- `N`, the fan-out of the tree. -/
def fanOut : ℕ := 1024

/-- `sizeof(GAddr)`. -/
def pointerSize : ℕ := 10

/-- The first loop of `LocateParentNode`, which goes from the last layer up. -/
def path : ℕ → ℕ → List ℕ
  | 0, _ => []
  | j + 1, pos => path j (pos / fanOut) ++ [pos / fanOut % fanOut]

/-- The second loop of `LocateParentNode`. -/
def follow (cur : GAddr) : List ℕ → Run → GAddr × Run
  | [], s => (cur, s)
  | i :: is, s =>
    let (tmp, s) := s.readPointer (GADD cur (i * pointerSize))
    follow tmp is s

/-- `LocateParentNode`; `none` where the assertion fails. -/
def locateParentNode (a : GAddrArray) (layerId pos : ℕ) (s : Run) : Option (GAddr × Run) := do
  guard (∃ h : layerId < 4, pos < (a.layerSize ⟨layerId, h⟩).toNat)
  return follow a.rootAddr (path layerId pos).tail s

/-- The loop that counts the layers.  The bound is zero after seven rounds, and if that is not
enough the loop does not end. -/
def layerLoop (size : BitVec 64) : ℕ → BitVec 64 → ℕ → Option ℕ
  | 0, _, _ => none
  | fuel + 1, bound, layerNum =>
    if bound < size then layerLoop size fuel (bound * BitVec.ofNat 64 fanOut) (layerNum + 1)
    else some layerNum

/-- One round of the loop over `layer_size_`, which has four elements. -/
def sizeStep (sizes : Fin 4 → BitVec 64) (i : ℕ) : Option (Fin 4 → BitVec 64) :=
  if h : i < 4 then
    some (Function.update sizes ⟨i, h⟩ (sizes ⟨i - 1, by omega⟩ * BitVec.ofNat 64 fanOut))
  else none

/-- One round of the loops that build the tree, for position `pos` of layer `layerId`. -/
def initNode (alloc : ℕ → GAddr) (a : GAddrArray) (s : Run) : ℕ × ℕ → Option Run
  | (layerId, pos) => do
    let perSlotSize :=
      if layerId < a.layerNum.toNat - 1 then BitVec.ofNat 64 pointerSize else a.elementSize
    let (memSegment, s) := s.alignedMalloc alloc (perSlotSize * BitVec.ofNat 64 fanOut)
    let (parentAddr, s) ← a.locateParentNode layerId pos s
    return s.writePointer (GADD parentAddr (pos % fanOut * pointerSize)) memSegment

/-- The layers below the root and their positions, in the order of the loops. -/
def nodes (a : GAddrArray) : List (ℕ × ℕ) :=
  (List.range' 1 (a.layerNum.toNat - 1)).flatMap fun layerId =>
    (List.range (a.layerSize (Fin.ofNat 4 layerId)).toNat).map (layerId, ·)

/-- `Init`, where the fields of the array are those of `a`; `none` where an assertion fails. -/
def init (alloc : ℕ → GAddr) (a : GAddrArray) (elementCount elementSize : BitVec 64) (s : Run) :
    Option (GAddrArray × Run) := do
  let layerNum ← layerLoop elementCount 8 1 0
  let layerSize ← (List.range' 1 layerNum).foldlM sizeStep (Function.update a.layerSize 0 1)
  guard (∃ h : layerNum < 4, elementCount ≤ layerSize ⟨layerNum, h⟩)
  let rootSize := if layerNum = 1 then elementSize * BitVec.ofNat 64 fanOut
    else BitVec.ofNat 64 (pointerSize * fanOut)
  let (rootAddr, s) := s.alignedMalloc alloc rootSize
  let a : GAddrArray := ⟨rootAddr, elementCount, elementSize, layerSize, .ofNat 64 layerNum⟩
  let s ← a.nodes.foldlM (initNode alloc a) s
  return (a, s)

/-- `GetElementGAddr`; `none` where an assertion fails. -/
def getElementGAddr (a : GAddrArray) (offset : ℕ) (s : Run) : Option (GAddr × Run) := do
  guard (offset < a.arraySize.toNat)
  let (parentAddr, s) ← a.locateParentNode a.layerNum.toNat offset s
  return (GADD parentAddr (offset % fanOut * a.elementSize.toNat), s)

end GAddrArray

/-! ## Soundness -/

/-- Every slot that was read had been written. -/
def Run.ReadsWritten (s : Run) : Prop :=
  ∀ pre slot post, s.accesses = pre ++ .read slot :: post → .write slot ∈ post

theorem Run.ReadsWritten.writePointer {s : Run} (hs : s.ReadsWritten)
    {p x : GAddr} : (s.writePointer p x).ReadsWritten := by
  intro pre q post hq
  cases pre with
  | nil => cases hq
  | cons e pre => exact hs pre q post (List.cons.inj hq).2

/-- A region for elements is one without pointers. -/
def Run.ForElements (s : Run) (r : Region) : Prop :=
  r ∈ s.regions ∧
    ∀ slot, .write slot ∈ s.accesses → Disjoint (slot.bytes GAddrArray.pointerSize) r.bytes

namespace GAddrArray

/-- Where `Init` has left off, each element has a place for itself, and it is found. -/
structure Addressed (a : GAddrArray) (s : Run) : Prop where
  reads : s.ReadsWritten
  element : ∀ i < a.arraySize.toNat, ∃ e s', a.getElementGAddr i s = some (e, s') ∧
    s'.ReadsWritten ∧ ∃ r, s.ForElements r ∧ e.bytes a.elementSize.toNat ⊆ r.bytes
  distinct : ∀ i j e e' s' s'', i ≠ j → a.getElementGAddr i s = some (e, s') →
    a.getElementGAddr j s = some (e', s'') →
    Disjoint (e.bytes a.elementSize.toNat) (e'.bytes a.elementSize.toNat)

/-- What `Init` does to an array with any fields and any memory. -/
def Sound (alloc : ℕ → GAddr) (elementCount elementSize : BitVec 64) : Prop :=
  ∀ a₀ mem, ∃ a s, init alloc a₀ elementCount elementSize ⟨mem, [], []⟩ = some (a, s) ∧
    a.arraySize = elementCount ∧ a.elementSize = elementSize ∧ a.Addressed s

/-- The allocations of `Init` are aligned and return regions of their own. -/
def Fresh (alloc : ℕ → GAddr) (elementCount elementSize : BitVec 64) : Prop :=
  (∀ i, (alloc i).addr.toNat % lineSize = 0) ∧
    ∀ a₀ mem a s, init alloc a₀ elementCount elementSize ⟨mem, [], []⟩ = some (a, s) →
      s.regions.Pairwise fun r r' => Disjoint r.bytes r'.bytes

/-! ## Layers -/

/-- The sizes that `Init` computes. -/
structure Layered (a : GAddrArray) : Prop where
  num : a.layerNum.toNat ≤ 3
  size : ∀ i (h : i < 4), i ≤ a.layerNum.toNat → (a.layerSize ⟨i, h⟩).toNat = fanOut ^ i
  count : a.arraySize.toNat ≤ fanOut ^ a.layerNum.toNat

section Loops

variable {count : BitVec 64}

theorem layerLoop_done {bound : BitVec 64} (h : count.toNat ≤ bound.toNat) (fuel n : ℕ) :
    layerLoop count (fuel + 1) bound n = some n :=
  if_neg (Nat.not_lt.mpr h)

theorem layerLoop_next {bound : BitVec 64} (h : bound.toNat < count.toNat) (fuel n : ℕ) :
    layerLoop count (fuel + 1) bound n
      = layerLoop count fuel (bound * BitVec.ofNat 64 fanOut) (n + 1) :=
  if_pos h

/-- There are as few layers as have room for the elements. -/
theorem layerLoop_eq (h : count.toNat ≤ fanOut ^ 3) :
    ∃ n ≤ 3, layerLoop count 8 1 0 = some n ∧ count.toNat ≤ fanOut ^ n ∧
      (count.toNat ≤ 1 → n = 0) ∧ (1 < count.toNat → n ≠ 0) := by
  rcases Nat.lt_or_ge 1 count.toNat with h0 | h0
  · rw [layerLoop_next (by exact h0)]
    rcases Nat.lt_or_ge (fanOut ^ 1) count.toNat with h1 | h1
    · rw [layerLoop_next (by exact h1)]
      rcases Nat.lt_or_ge (fanOut ^ 2) count.toNat with h2 | h2
      · rw [layerLoop_next (by exact h2)]
        exact ⟨3, le_rfl, layerLoop_done (by exact h) 4 3, h, by omega, by omega⟩
      · exact ⟨2, by decide, layerLoop_done (by exact h2) 5 2, h2, by omega, by omega⟩
    · exact ⟨1, by decide, layerLoop_done (by exact h1) 6 1, h1, by omega, by omega⟩
  · exact ⟨0, by decide, layerLoop_done (by exact h0) 7 0, by simpa using h0, by omega, by omega⟩

/-- The sizes of the layers are powers. -/
theorem sizeStep_eq {n : ℕ} (hn : n ≤ 3) (sizes : Fin 4 → BitVec 64) :
    ∃ f, (List.range' 1 n).foldlM sizeStep (Function.update sizes 0 1) = some f ∧
      ∀ i (h : i < 4), i ≤ n → (f ⟨i, h⟩).toNat = fanOut ^ i := by
  induction n with
  | zero =>
    refine ⟨_, rfl, fun i h hi => ?_⟩
    obtain rfl := Nat.le_zero.mp hi
    rfl
  | succ n ih =>
    obtain ⟨f, hf, hsize⟩ := ih (Nat.le_of_succ_le hn)
    have hlt : 1 + n < 4 := by omega
    refine ⟨Function.update f ⟨1 + n, hlt⟩ (f ⟨1 + n - 1, by omega⟩ * BitVec.ofNat 64 fanOut), ?_,
      fun i h hi => ?_⟩
    · rw [List.range'_concat, List.foldlM_append, hf, Nat.one_mul]
      simp only [Option.bind_eq_bind, Option.bind_some, List.foldlM_cons, List.foldlM_nil, sizeStep,
        dif_pos hlt]
      rfl
    · rcases Nat.lt_or_ge i (1 + n) with hlow | hnew
      · rw [Function.update_of_ne (by simp only [ne_eq, Fin.mk.injEq]; omega)]
        exact hsize i h (by omega)
      · obtain rfl : i = 1 + n := by omega
        have hprev : (f ⟨1 + n - 1, by omega⟩).toNat = fanOut ^ n := by
          rw [hsize (1 + n - 1) (by omega) (by omega), Nat.add_sub_cancel_left]
        have hpow : fanOut ^ (1 + n) < 2 ^ 64 :=
          (Nat.pow_le_pow_right (by decide) (show 1 + n ≤ 3 by omega)).trans_lt (by decide)
        rw [Nat.add_comm 1 n, Nat.pow_succ] at hpow
        rw [Function.update_self, BitVec.toNat_mul, hprev, Nat.add_comm 1 n, Nat.pow_succ]
        exact Nat.mod_eq_of_lt hpow

end Loops

/-! ## The tree -/

/-- The root and the other nodes, in the order in which they are allocated. -/
def allNodes (a : GAddrArray) : List (ℕ × ℕ) :=
  (0, 0) :: a.nodes

section Tree

variable {a : GAddrArray} {x y : ℕ × ℕ}

theorem Layered.toNat_layerSize (ha : a.Layered) {i : ℕ} (hi : i ≤ a.layerNum.toNat) :
    (a.layerSize (Fin.ofNat 4 i)).toNat = fanOut ^ i := by
  have hnum := ha.num
  have hlt : i < 4 := by omega
  have hfin : Fin.ofNat 4 i = ⟨i, hlt⟩ := Fin.ext (Nat.mod_eq_of_lt hlt)
  rw [hfin, ha.size i hlt hi]

theorem Layered.mem_nodes (ha : a.Layered) :
    x ∈ a.nodes ↔ 1 ≤ x.1 ∧ x.1 < a.layerNum.toNat ∧ x.2 < fanOut ^ x.1 := by
  obtain ⟨l, p⟩ := x
  simp only [nodes, List.mem_flatMap, List.mem_range'_1, List.mem_map, List.mem_range, Prod.mk.injEq]
  constructor
  · rintro ⟨l, hl, p, hp, rfl, rfl⟩
    rw [ha.toNat_layerSize (by omega)] at hp
    exact ⟨hl.1, by omega, hp⟩
  · rintro ⟨h1, hl, hp⟩
    refine ⟨l, ⟨h1, by omega⟩, p, ?_, rfl, rfl⟩
    rwa [ha.toNat_layerSize (by omega)]

theorem Layered.mem_allNodes (ha : a.Layered) :
    x ∈ a.allNodes ↔ x = (0, 0) ∨ 1 ≤ x.1 ∧ x.1 < a.layerNum.toNat ∧ x.2 < fanOut ^ x.1 := by
  rw [allNodes, List.mem_cons, ha.mem_nodes]

/-- Layer by layer, and from left to right. -/
theorem nodes_sorted (a : GAddrArray) :
    a.nodes.Pairwise fun x y => x.1 < y.1 ∨ x.1 = y.1 ∧ x.2 < y.2 := by
  refine List.pairwise_flatMap.mpr ⟨fun l _ => ?_, ?_⟩
  · rw [List.pairwise_map]
    exact List.pairwise_lt_range.imp fun h => .inr ⟨rfl, h⟩
  · refine (List.pairwise_lt_range' 1).imp fun h x hx y hy => ?_
    obtain ⟨-, -, rfl⟩ := List.mem_map.mp hx
    obtain ⟨-, -, rfl⟩ := List.mem_map.mp hy
    exact .inl h

theorem Layered.sorted (ha : a.Layered) :
    a.allNodes.Pairwise fun x y => x.1 < y.1 ∨ x.1 = y.1 ∧ x.2 < y.2 :=
  List.pairwise_cons.mpr ⟨fun _ hx => .inl (ha.mem_nodes.mp hx).1, a.nodes_sorted⟩

theorem Layered.nodup (ha : a.Layered) : a.allNodes.Nodup :=
  ha.sorted.imp fun h heq => by
    rw [heq] at h
    omega

/-- What comes before a node has every node of the layers above. -/
theorem Layered.mem_of_append (ha : a.Layered) {pre post : List (ℕ × ℕ)}
    (h : a.allNodes = pre ++ x :: post) (hy : y ∈ a.allNodes) (hlt : y.1 < x.1) : y ∈ pre := by
  have hsorted := ha.sorted
  rw [h, List.pairwise_append, List.pairwise_cons] at hsorted
  rw [h, List.mem_append, List.mem_cons] at hy
  rcases hy with hy | rfl | hy
  · exact hy
  · omega
  · have := hsorted.2.1.1 y hy
    omega

end Tree

/-! ## Regions and slots -/

section Slots

variable (alloc : ℕ → GAddr) (a : GAddrArray)

/-- What is allocated for a node. -/
def nodeAddr (x : ℕ × ℕ) : GAddr :=
  alloc (a.allNodes.idxOf x)

/-- The region of a node: a segment in the last layer, a table above it. -/
def region (x : ℕ × ℕ) : Region :=
  ⟨a.nodeAddr alloc x, (if x.1 + 1 = a.layerNum.toNat then a.elementSize
    else BitVec.ofNat 64 pointerSize) * BitVec.ofNat 64 fanOut⟩

/-- The slot that points to a node. -/
def slot (x : ℕ × ℕ) : GAddr :=
  GADD (a.nodeAddr alloc (x.1 - 1, x.2 / fanOut)) (x.2 % fanOut * pointerSize)

/-- The regions of the nodes are apart. -/
def Apart : Prop :=
  ∀ x ∈ a.allNodes, ∀ y ∈ a.allNodes, x ≠ y →
    Disjoint (a.region alloc x).bytes (a.region alloc y).bytes

end Slots

/-! ## Looking up -/

/-- What a lookup leaves: it reads slots that have been written. -/
structure Looked (s s' : Run) : Prop where
  mem : s'.mem = s.mem
  regions : s'.regions = s.regions
  reads : s.ReadsWritten → s'.ReadsWritten
  writes : ∀ p, .write p ∈ s'.accesses ↔ .write p ∈ s.accesses

theorem Looked.refl (s : Run) : Looked s s :=
  ⟨rfl, rfl, id, fun _ => Iff.rfl⟩

theorem Looked.trans {s s' s'' : Run} (h : Looked s s') (h' : Looked s' s'') : Looked s s'' :=
  ⟨h'.mem.trans h.mem, h'.regions.trans h.regions, h'.reads ∘ h.reads,
    fun p => (h'.writes p).trans (h.writes p)⟩

theorem Looked.readPointer {s : Run} {p : GAddr} (h : .write p ∈ s.accesses) :
    Looked s (s.readPointer p).2 where
  mem := rfl
  regions := rfl
  reads hs pre q post hq := by
    cases pre with
    | nil =>
      obtain ⟨hp, rfl⟩ := List.cons.inj hq
      cases hp
      exact h
    | cons e pre => exact hs pre q post (List.cons.inj hq).2
  writes q := by
    simp only [Run.readPointer, List.mem_cons, reduceCtorEq, false_or]

/-- A node can be reached from its parent. -/
def Linked (alloc : ℕ → GAddr) (a : GAddrArray) (s : Run) (x : ℕ × ℕ) : Prop :=
  s.mem.read gaddr (a.slot alloc x) = a.nodeAddr alloc x ∧ .write (a.slot alloc x) ∈ s.accesses

section Follow

variable {alloc : ℕ → GAddr} {a : GAddrArray} {s s' : Run} {x : ℕ × ℕ}

theorem Looked.linked (h : Looked s s') (hx : a.Linked alloc s x) : a.Linked alloc s' x := by
  refine ⟨?_, (h.writes _).mpr hx.2⟩
  rw [h.mem]
  exact hx.1

theorem follow_append (is : List ℕ) (i : ℕ) (cur : GAddr) (s : Run) :
    follow cur (is ++ [i]) s
      = (follow cur is s).2.readPointer (GADD (follow cur is s).1 (i * pointerSize)) := by
  induction is generalizing cur s with
  | nil => rfl
  | cons j is ih => exact ih _ _

/-- The path leads to the node above the position, if the nodes on it can be reached. -/
theorem follow_path (l p : ℕ) (hp : p < fanOut ^ (l + 1))
    (hlinked : ∀ j q, 1 ≤ j → j ≤ l → q < fanOut ^ j → a.Linked alloc s (j, q)) :
    (follow (a.nodeAddr alloc (0, 0)) (path (l + 1) p).tail s).1 = a.nodeAddr alloc (l, p / fanOut) ∧
      Looked s (follow (a.nodeAddr alloc (0, 0)) (path (l + 1) p).tail s).2 := by
  induction l generalizing p with
  | zero =>
    have hroot : p / fanOut = 0 := Nat.div_eq_of_lt (by simpa using hp)
    rw [hroot]
    exact ⟨rfl, Looked.refl s⟩
  | succ l ih =>
    have hdiv : p / fanOut < fanOut ^ (l + 1) := by
      rw [Nat.div_lt_iff_lt_mul (by decide), ← Nat.pow_succ]
      exact hp
    obtain ⟨haddr, hlooked⟩ := ih (p / fanOut) hdiv fun j q h1 hj => hlinked j q h1 (by omega)
    have htail : (path (l + 1 + 1) p).tail
        = (path (l + 1) (p / fanOut)).tail ++ [p / fanOut % fanOut] :=
      List.tail_append_of_ne_nil (by simp [path])
    have hnode := hlooked.linked (hlinked (l + 1) (p / fanOut) (by omega) le_rfl hdiv)
    rw [htail, follow_append, haddr]
    exact ⟨hnode.1, hlooked.trans (Looked.readPointer hnode.2)⟩

/-- Within the layers the assertion holds. -/
theorem Layered.locateParentNode_eq (ha : a.Layered) {l p : ℕ} (hl : l ≤ a.layerNum.toNat)
    (hp : p < fanOut ^ l) (s : Run) :
    a.locateParentNode l p s = some (follow a.rootAddr (path l p).tail s) := by
  have hnum := ha.num
  have hguard : ∃ h : l < 4, p < (a.layerSize ⟨l, h⟩).toNat :=
    ⟨by omega, by rwa [ha.size _ _ hl]⟩
  rw [locateParentNode, guard, if_pos hguard]
  rfl

end Follow

/-! ## Building -/

section Build

variable {alloc : ℕ → GAddr} {a : GAddrArray} {s : Run} {x y : ℕ × ℕ} {pre post : List (ℕ × ℕ)}

theorem Layered.parent_mem (ha : a.Layered) (hx : x ∈ a.nodes) :
    (x.1 - 1, x.2 / fanOut) ∈ a.allNodes := by
  obtain ⟨h1, hl, hp⟩ := ha.mem_nodes.mp hx
  obtain ⟨l, hxl⟩ : ∃ l, x.1 = l + 1 := ⟨x.1 - 1, by omega⟩
  rw [hxl, Nat.pow_succ] at hp
  have hdiv : x.2 / fanOut < fanOut ^ l := Nat.div_lt_of_lt_mul (by rwa [Nat.mul_comm])
  rw [ha.mem_allNodes, hxl, Nat.add_sub_cancel]
  cases l with
  | zero =>
    rw [Nat.pow_zero] at hdiv
    exact .inl (Prod.ext rfl (by simpa using hdiv))
  | succ l => exact .inr ⟨by omega, by omega, hdiv⟩

/-- A table has room for its slots. -/
theorem Layered.slot_subset (ha : a.Layered) (hx : x ∈ a.nodes) :
    (a.slot alloc x).bytes pointerSize ⊆ (a.region alloc (x.1 - 1, x.2 / fanOut)).bytes := by
  obtain ⟨h1, hl, -⟩ := ha.mem_nodes.mp hx
  have hmod : x.2 % fanOut < fanOut := Nat.mod_lt _ (by decide)
  have htable : ¬ x.1 - 1 + 1 = a.layerNum.toNat := by omega
  rw [Region.bytes, region, if_neg htable]
  refine GADD_bytes_subset ?_ ?_
  · simp only [fanOut, pointerSize] at hmod ⊢
    omega
  · rw [show (BitVec.ofNat 64 pointerSize * BitVec.ofNat 64 fanOut).toNat = fanOut * pointerSize by
      decide, ← Nat.succ_mul]
    exact Nat.mul_le_mul_right _ hmod

/-- Distinct nodes have slots of their own. -/
theorem Layered.slot_disjoint (ha : a.Layered) (hapart : a.Apart alloc) (hx : x ∈ a.nodes)
    (hy : y ∈ a.nodes) (h : x ≠ y) :
    Disjoint ((a.slot alloc x).bytes pointerSize) ((a.slot alloc y).bytes pointerSize) := by
  have hx' := ha.mem_nodes.mp hx
  have hy' := ha.mem_nodes.mp hy
  rcases Classical.em ((x.1 - 1, x.2 / fanOut) = (y.1 - 1, y.2 / fanOut)) with heq | hne
  · -- in one table they are at different places
    have hmx : x.2 % fanOut < fanOut := Nat.mod_lt _ (by decide)
    have hmy : y.2 % fanOut < fanOut := Nat.mod_lt _ (by decide)
    obtain ⟨hl, hd⟩ := Prod.mk.inj heq
    have hmod : x.2 % fanOut ≠ y.2 % fanOut := fun hm => h <| Prod.ext (by omega) <| by
      rw [← Nat.div_add_mod x.2 fanOut, ← Nat.div_add_mod y.2 fanOut, hd, hm]
    rw [slot, slot, heq]
    simp only [fanOut, pointerSize] at hmx hmy hmod ⊢
    rcases Nat.lt_or_gt_of_ne hmod with hlt | hlt
    · exact GADD_bytes_disjoint (by omega) (by omega) (by omega) (by omega)
    · exact (GADD_bytes_disjoint (by omega) (by omega) (by omega) (by omega)).symm
  · exact (hapart _ (ha.parent_mem hx) _ (ha.parent_mem hy) hne).mono (ha.slot_subset hx)
      (ha.slot_subset hy)

/-- The nodes in `pre` have been allocated, and if their regions are apart they can be reached. -/
structure Built (alloc : ℕ → GAddr) (a : GAddrArray) (pre : List (ℕ × ℕ)) (s : Run) : Prop where
  regions : s.regions = (pre.map (a.region alloc)).reverse
  reads : a.Apart alloc → s.ReadsWritten
  linked : a.Apart alloc → ∀ x ∈ pre, x ∈ a.nodes → a.Linked alloc s x
  writes : a.Apart alloc → ∀ p, .write p ∈ s.accesses → ∃ x ∈ a.nodes, p = a.slot alloc x

theorem follow_regions (cur : GAddr) (is : List ℕ) (s : Run) :
    (follow cur is s).2.regions = s.regions := by
  induction is generalizing cur s with
  | nil => rfl
  | cons i is ih => exact ih _ _

/-- What a round of the loops does. -/
theorem Layered.initNode_eq (ha : a.Layered) (hsplit : a.allNodes = pre ++ x :: post)
    (hx : x ∈ a.nodes) (hregions : s.regions = (pre.map (a.region alloc)).reverse) :
    initNode alloc a s x =
      let s₁ : Run := { s with regions := a.region alloc x :: s.regions }
      let q := follow a.rootAddr (path x.1 x.2).tail s₁
      some (q.2.writePointer (GADD q.1 (x.2 % fanOut * pointerSize)) (a.nodeAddr alloc x)) := by
  obtain ⟨l, p⟩ := x
  obtain ⟨h1, hl, hp⟩ := ha.mem_nodes.mp hx
  have hnum := ha.num
  simp only at h1 hl hp
  -- the region that is allocated is the one of the node
  have hnodup := ha.nodup
  rw [hsplit, List.nodup_middle, List.nodup_cons, List.mem_append, not_or] at hnodup
  have hcall : alloc s.regions.length = a.nodeAddr alloc (l, p) := by
    rw [nodeAddr, hsplit, List.idxOf_append_of_notMem hnodup.1.1, List.idxOf_cons_self, hregions,
      List.length_reverse, List.length_map, Nat.add_zero]
  have hregion : (if l < a.layerNum.toNat - 1 then BitVec.ofNat 64 pointerSize
      else a.elementSize) = if l + 1 = a.layerNum.toNat then a.elementSize
        else BitVec.ofNat 64 pointerSize := by
    split <;> split <;> first | rfl | omega
  simp only [initNode, Run.alignedMalloc, hcall, hregion, ha.locateParentNode_eq hl.le hp]
  rfl

theorem Built.append_regions (hs : a.Built alloc pre s) :
    a.region alloc x :: s.regions = ((pre ++ [x]).map (a.region alloc)).reverse := by
  rw [hs.regions, List.map_append, List.reverse_append]
  rfl

/-- A round of the loops adds a node. -/
theorem Layered.initNode (ha : a.Layered) (hroot : a.rootAddr = a.nodeAddr alloc (0, 0))
    (hsplit : a.allNodes = pre ++ x :: post) (hx : x ∈ a.nodes) (hs : a.Built alloc pre s) :
    ∃ s', initNode alloc a s x = some s' ∧ a.Built alloc (pre ++ [x]) s' := by
  refine ⟨_, ha.initNode_eq hsplit hx hs.regions, ?_⟩
  obtain ⟨h1, hl, hp⟩ := ha.mem_nodes.mp hx
  obtain ⟨l, p⟩ := x
  obtain ⟨l, rfl⟩ : ∃ k, l = k + 1 := ⟨l - 1, by simp only at h1; omega⟩
  simp only at hl hp
  have hregions := hs.append_regions (x := (l + 1, p))
  generalize hs₁ : ({ s with regions := a.region alloc (l + 1, p) :: s.regions } : Run) = s₁
  have hreads : a.Apart alloc → s₁.ReadsWritten := hs₁ ▸ hs.reads
  have hlinked : a.Apart alloc → ∀ y ∈ pre, y ∈ a.nodes → a.Linked alloc s₁ y := hs₁ ▸ hs.linked
  have hwrites : a.Apart alloc → ∀ p, .write p ∈ s₁.accesses → ∃ x ∈ a.nodes, p = a.slot alloc x :=
    hs₁ ▸ hs.writes
  have hparent (hapart : a.Apart alloc) := follow_path l p hp fun j q hj1 hj hq =>
    have hmem : (j, q) ∈ a.nodes := ha.mem_nodes.mpr ⟨hj1, by simp only; omega, hq⟩
    hlinked hapart (j, q) (ha.mem_of_append hsplit (List.mem_cons_of_mem _ hmem)
      (by simp only; omega)) hmem
  rw [← hroot] at hparent
  simp only
  have hkept := follow_regions a.rootAddr (path (l + 1) p).tail s₁
  generalize follow a.rootAddr (path (l + 1) p).tail s₁ = q at hparent hkept ⊢
  have hslot (hapart : a.Apart alloc) :
      GADD q.1 (p % fanOut * pointerSize) = a.slot alloc (l + 1, p) := by
    rw [(hparent hapart).1, slot, Nat.add_sub_cancel]
  refine ⟨?_, fun hapart => ?_, fun hapart y hy hnode => ?_, fun hapart r hr => ?_⟩
  · rw [← hregions, ← hs₁] at *
    exact hkept
  · rw [hslot hapart]
    exact ((hparent hapart).2.reads (hreads hapart)).writePointer
  · rw [hslot hapart]
    rcases List.mem_append.mp hy with hpre | hlast
    · -- the new slot is not the one of a node that can be reached already
      have hne : y ≠ (l + 1, p) := fun heq => by
        have hnodup := ha.nodup
        rw [hsplit, List.nodup_append] at hnodup
        exact hnodup.2.2 y hpre (l + 1, p) List.mem_cons_self heq
      obtain ⟨hread, hwrite⟩ := (hparent hapart).2.linked (hlinked hapart y hpre hnode)
      refine ⟨?_, List.mem_cons_of_mem _ hwrite⟩
      rw [Run.writePointer, Memory.read_write_of_disjoint (by decide) _
        (ha.slot_disjoint hapart hnode hx hne)]
      exact hread
    · obtain rfl := List.mem_singleton.mp hlast
      exact ⟨Memory.read_write (by decide) _, List.mem_cons_self⟩
  · rw [hslot hapart] at hr
    rcases List.mem_cons.mp hr with hnew | hold
    · exact ⟨_, hx, by injection hnew⟩
    · exact hwrites hapart r (((hparent hapart).2.writes r).mp hold)

/-- All rounds together build the tree. -/
theorem Layered.foldlM_initNode (ha : a.Layered) (hroot : a.rootAddr = a.nodeAddr alloc (0, 0))
    (hsplit : a.allNodes = pre ++ post) (hpost : ∀ x ∈ post, x ∈ a.nodes)
    (hs : a.Built alloc pre s) :
    ∃ s', post.foldlM (GAddrArray.initNode alloc a) s = some s' ∧ a.Built alloc a.allNodes s' := by
  induction post generalizing pre s with
  | nil =>
    rw [List.append_nil] at hsplit
    exact ⟨s, rfl, hsplit ▸ hs⟩
  | cons x post ih =>
    obtain ⟨s₁, hinit, hs₁⟩ := ha.initNode hroot hsplit (hpost x List.mem_cons_self) hs
    obtain ⟨s', hfold, hs'⟩ := ih (by rw [hsplit, List.append_assoc]; rfl)
      (fun y hy => hpost y (List.mem_cons_of_mem x hy)) hs₁
    refine ⟨s', ?_, hs'⟩
    rw [List.foldlM_cons, hinit]
    exact hfold

end Build

/-! ## What `Init` leaves -/

/-- What an array is after `Init`. -/
structure Initialized (alloc : ℕ → GAddr) (a : GAddrArray) (s : Run) : Prop where
  layered : a.Layered
  root : a.rootAddr = a.nodeAddr alloc (0, 0)
  built : a.Built alloc a.allNodes s
  one : a.arraySize.toNat ≤ 1 → a.layerNum.toNat = 0
  more : 1 < a.arraySize.toNat → a.layerNum.toNat ≠ 0

/-- The assertions of `Init` hold. -/
theorem init_spec (alloc : ℕ → GAddr) (a₀ : GAddrArray) (mem : Memory) {count elementSize : BitVec 64}
    (hcount : count.toNat ≤ fanOut ^ 3) :
    ∃ a s, init alloc a₀ count elementSize ⟨mem, [], []⟩ = some (a, s) ∧ a.arraySize = count ∧
      a.elementSize = elementSize ∧ a.Initialized alloc s := by
  obtain ⟨n, hn, hloop, hle, hone, hmore⟩ := layerLoop_eq hcount
  obtain ⟨sizes, hsizes, hpow⟩ := sizeStep_eq hn a₀.layerSize
  have hnum : (BitVec.ofNat 64 n).toNat = n := by
    rw [BitVec.toNat_ofNat]
    omega
  have hguard : ∃ h : n < 4, count ≤ sizes ⟨n, h⟩ :=
    ⟨by omega, by rw [BitVec.le_def, hpow n _ le_rfl]; exact hle⟩
  let a : GAddrArray := ⟨alloc 0, count, elementSize, sizes, .ofNat 64 n⟩
  have ha : a.Layered := ⟨hnum.trans_le hn, fun i h hi => hpow i h (hi.trans_eq hnum), by rwa [hnum]⟩
  have hroot : a.nodeAddr alloc (0, 0) = alloc 0 := by
    rw [nodeAddr, allNodes, List.idxOf_cons_self]
  have hregion : a.region alloc (0, 0) = ⟨alloc 0, if n = 1 then elementSize * BitVec.ofNat 64 fanOut
      else BitVec.ofNat 64 (pointerSize * fanOut)⟩ := by
    rw [region, hroot, hnum, Nat.zero_add]
    rcases Classical.em (n = 1) with rfl | hne
    · rfl
    · rw [if_neg hne, if_neg (Ne.symm hne)]
      rfl
  have hfirst : a.Built alloc [(0, 0)] ⟨mem, [a.region alloc (0, 0)], []⟩ := by
    refine ⟨rfl, fun _ pre p post h => ?_, fun _ x hx hnode => ?_, fun _ p hp => ?_⟩
    · cases pre <;> cases h
    · obtain rfl := List.mem_singleton.mp hx
      exact absurd (ha.mem_nodes.mp hnode).1 (by decide)
    · cases hp
  obtain ⟨s, hfold, hbuilt⟩ := ha.foldlM_initNode hroot.symm rfl (fun x hx => hx) hfirst
  refine ⟨a, s, ?_, rfl, rfl, ha, hroot.symm, hbuilt, fun h => hnum.trans (hone h),
    fun h => hnum.trans_ne (hmore h)⟩
  rw [hregion] at hfold
  rw [init, hloop]
  simp only [Option.bind_eq_bind, Option.bind_some, hsizes, guard, if_pos hguard]
  exact congrArg (·.bind fun s => some (a, s)) hfold

/-! ## Elements -/

/-- The segment of an element; with one element, it is the root. -/
def segment (a : GAddrArray) (i : ℕ) : ℕ × ℕ :=
  if a.layerNum.toNat = 0 then (0, 0) else (a.layerNum.toNat - 1, i / fanOut)

/-- The size of an element suits the count: the only element fits in the table that the root is
then, and the offset of every other is a positive `int`. -/
def Fits (elementCount elementSize : BitVec 64) : Prop :=
  if elementCount.toNat = 1 then elementSize.toNat ≤ pointerSize * fanOut
  else (min elementCount.toNat fanOut - 1) * elementSize.toNat < 2 ^ 31

section Elements

variable {alloc : ℕ → GAddr} {a : GAddrArray} {s : Run} {i j : ℕ}

theorem Layered.segment_mem (ha : a.Layered) (hi : i < a.arraySize.toNat) :
    a.segment i ∈ a.allNodes := by
  have hcount := ha.count
  rw [ha.mem_allNodes, segment]
  split
  next => exact .inl rfl
  next hne =>
    obtain ⟨l, hl⟩ := Nat.exists_eq_succ_of_ne_zero hne
    rw [hl, Nat.pow_succ] at hcount
    have hdiv : i / fanOut < fanOut ^ l :=
      Nat.div_lt_of_lt_mul (by rw [Nat.mul_comm]; exact hi.trans_le hcount)
    rw [hl, Nat.succ_eq_add_one, Nat.add_sub_cancel]
    cases l with
    | zero =>
      rw [Nat.pow_zero] at hdiv
      exact .inl (Prod.ext rfl (by simpa using hdiv))
    | succ l => exact .inr ⟨by omega, by omega, hdiv⟩

theorem Initialized.apart (h : a.Initialized alloc s)
    (hs : s.regions.Pairwise fun r r' => Disjoint r.bytes r'.bytes) : a.Apart alloc := by
  rw [h.built.regions, List.pairwise_reverse, List.pairwise_map] at hs
  have hsymm : Std.Symm fun x y => Disjoint (a.region alloc y).bytes (a.region alloc x).bytes :=
    ⟨fun _ _ hxy => hxy.symm⟩
  exact fun x hx y hy hne => hs.forall hy hx hne.symm

/-- `GetElementGAddr` finds the segment, and its assertions hold. -/
theorem Initialized.getElementGAddr (h : a.Initialized alloc s) (hapart : a.Apart alloc)
    (hi : i < a.arraySize.toNat) :
    ∃ s', a.getElementGAddr i s
      = some (GADD (a.nodeAddr alloc (a.segment i)) (i % fanOut * a.elementSize.toNat), s') ∧
        Looked s s' := by
  have ha := h.layered
  have hcount := ha.count
  have hlocate := ha.locateParentNode_eq le_rfl (hi.trans_le hcount) s
  suffices hfollow : (follow a.rootAddr (path a.layerNum.toNat i).tail s).1
      = a.nodeAddr alloc (a.segment i) ∧
        Looked s (follow a.rootAddr (path a.layerNum.toNat i).tail s).2 by
    refine ⟨_, ?_, hfollow.2⟩
    rw [GAddrArray.getElementGAddr, hlocate, ← hfollow.1, guard, if_pos hi]
    rfl
  rw [segment]
  split
  next hzero =>
    rw [hzero, h.root]
    exact ⟨rfl, Looked.refl s⟩
  next hne =>
    obtain ⟨l, hl⟩ := Nat.exists_eq_succ_of_ne_zero hne
    rw [hl] at hcount ⊢
    rw [h.root, Nat.succ_eq_add_one, Nat.add_sub_cancel]
    refine follow_path l i (hi.trans_le hcount) fun j q h1 hj hq => ?_
    have hmem : (j, q) ∈ a.nodes := ha.mem_nodes.mpr ⟨h1, by simp only; omega, hq⟩
    exact h.built.linked hapart _ (List.mem_cons_of_mem _ hmem) hmem

/-- The region of a segment is for elements. -/
theorem Initialized.forElements (h : a.Initialized alloc s) (hapart : a.Apart alloc)
    (hi : i < a.arraySize.toNat) : s.ForElements (a.region alloc (a.segment i)) := by
  have ha := h.layered
  have hmem := ha.segment_mem hi
  refine ⟨?_, fun p hp => ?_⟩
  · rw [h.built.regions]
    exact List.mem_reverse.mpr (List.mem_map_of_mem hmem)
  · obtain ⟨x, hx, rfl⟩ := h.built.writes hapart p hp
    obtain ⟨h1, hl, -⟩ := ha.mem_nodes.mp hx
    -- tables are in the layers above
    have hne : (x.1 - 1, x.2 / fanOut) ≠ a.segment i := by
      rw [segment, if_neg (by omega)]
      exact fun heq => by have := congrArg Prod.fst heq; simp only at this; omega
    exact (hapart _ (ha.parent_mem hx) _ hmem hne).mono_left (ha.slot_subset hx)

theorem size_segment (alloc : ℕ → GAddr) (a : GAddrArray) (i : ℕ) :
    (a.region alloc (a.segment i)).size
      = (if a.layerNum.toNat = 0 then BitVec.ofNat 64 pointerSize else a.elementSize) *
        BitVec.ofNat 64 fanOut := by
  rw [region, segment]
  rcases Classical.em (a.layerNum.toNat = 0) with hzero | hne
  · rw [if_pos hzero, if_pos hzero, if_neg (by omega)]
  · rw [if_neg hne, if_neg hne, if_pos (by simp only; omega)]

/-- With a size that suits, an offset is a positive `int` and its segment has room. -/
theorem Initialized.offset_lt (h : a.Initialized alloc s) (hfits : Fits a.arraySize a.elementSize)
    (hi : i < a.arraySize.toNat) :
    i % fanOut * a.elementSize.toNat < 2 ^ 31 ∧
      i % fanOut * a.elementSize.toNat + a.elementSize.toNat
        ≤ (a.region alloc (a.segment i)).size.toNat := by
  rw [size_segment]
  unfold Fits at hfits
  split at hfits
  next hone =>
    obtain rfl : i = 0 := by omega
    rw [if_pos (h.one hone.le), Nat.zero_mod, Nat.zero_mul, Nat.zero_add]
    exact ⟨by decide, hfits⟩
  next hne =>
    rw [if_neg (h.more (by omega))]
    have hmod : i % fanOut < fanOut := Nat.mod_lt _ (by decide)
    have hle : i % fanOut ≤ min a.arraySize.toNat fanOut - 1 := by
      have := Nat.mod_le i fanOut
      omega
    have hoff := (Nat.mul_le_mul_right a.elementSize.toNat hle).trans_lt hfits
    have hsmall : a.elementSize.toNat < 2 ^ 31 := by
      refine lt_of_le_of_lt (Nat.le_mul_of_pos_left _ ?_) hfits
      simp only [fanOut]
      omega
    have hsize : (a.elementSize * BitVec.ofNat 64 fanOut).toNat = fanOut * a.elementSize.toNat := by
      rw [BitVec.toNat_mul, BitVec.toNat_ofNat]
      simp only [fanOut]
      omega
    rw [hsize, ← Nat.succ_mul]
    exact ⟨hoff, Nat.mul_le_mul_right _ hmod⟩

/-- Elements of one segment are at different places in it. -/
theorem Initialized.mod_ne (h : a.Initialized alloc s) (hi : i < a.arraySize.toNat)
    (hj : j < a.arraySize.toNat) (hne : i ≠ j) (hseg : a.segment i = a.segment j) :
    i % fanOut ≠ j % fanOut := by
  have hmore := h.more (by omega)
  rw [segment, segment, if_neg hmore, if_neg hmore] at hseg
  intro hmod
  apply hne
  rw [← Nat.div_add_mod i fanOut, ← Nat.div_add_mod j fanOut, (Prod.mk.inj hseg).2, hmod]

/-- With a size that suits, each element has a place for itself. -/
theorem Initialized.addressed (h : a.Initialized alloc s) (hapart : a.Apart alloc)
    (hfits : Fits a.arraySize a.elementSize) : a.Addressed s := by
  have hreads := h.built.reads hapart
  have hsubset {i} (hi : i < a.arraySize.toNat) :
      (GADD (a.nodeAddr alloc (a.segment i)) (i % fanOut * a.elementSize.toNat)).bytes
        a.elementSize.toNat ⊆ (a.region alloc (a.segment i)).bytes := by
    obtain ⟨hoff, hroom⟩ := h.offset_lt hfits hi
    exact GADD_bytes_subset hoff hroom
  refine ⟨hreads, fun i hi => ?_, fun i j e e' s₁ s₂ hne he he' => ?_⟩
  · obtain ⟨s', hget, hlooked⟩ := h.getElementGAddr hapart hi
    exact ⟨_, s', hget, hlooked.reads hreads, _, h.forElements hapart hi, hsubset hi⟩
  · have hi : i < a.arraySize.toNat := by
      by_contra hge
      rw [GAddrArray.getElementGAddr, guard, if_neg hge] at he
      cases he
    have hj : j < a.arraySize.toNat := by
      by_contra hge
      rw [GAddrArray.getElementGAddr, guard, if_neg hge] at he'
      cases he'
    obtain ⟨_, hget, -⟩ := h.getElementGAddr hapart hi
    obtain ⟨_, hget', -⟩ := h.getElementGAddr hapart hj
    rw [hget] at he
    rw [hget'] at he'
    cases he
    cases he'
    rcases Classical.em (a.segment i = a.segment j) with heq | hseg
    · obtain ⟨hoff, hroom⟩ := h.offset_lt hfits hi
      obtain ⟨hoff', hroom'⟩ := h.offset_lt hfits hj
      have hlt := (a.region alloc (a.segment i)).size.isLt
      have hlt' := (a.region alloc (a.segment j)).size.isLt
      rw [heq]
      rcases Nat.lt_or_gt_of_ne (h.mod_ne hi hj hne heq) with hmod | hmod
      · have hnext := Nat.mul_le_mul_right a.elementSize.toNat hmod
        rw [Nat.succ_mul] at hnext
        exact GADD_bytes_disjoint hoff hoff' hnext (by omega)
      · have hnext := Nat.mul_le_mul_right a.elementSize.toNat hmod
        rw [Nat.succ_mul] at hnext
        exact (GADD_bytes_disjoint hoff' hoff hnext (by omega)).symm
    · exact (hapart _ (h.layered.segment_mem hi) _ (h.layered.segment_mem hj) hseg).mono
        (hsubset hi) (hsubset hj)

end Elements

/-! ## Where the size does not suit -/

/-- The offset that `GADD` adds for a `size_t`. -/
theorem signExtend_toNat (off : ℕ) : ((BitVec.ofNat 32 off).signExtend 64).toNat
    = if off % 2 ^ 32 < 2 ^ 31 then off % 2 ^ 32 else 2 ^ 64 - 2 ^ 32 + off % 2 ^ 32 := by
  rw [BitVec.toNat_signExtend, BitVec.msb_eq_decide, BitVec.toNat_setWidth, BitVec.toNat_ofNat]
  simp only [decide_eq_true_eq]
  split <;> split <;> omega

/-- Past `2 ^ 31` bytes, the second element begins among the bytes of the first, or the first among
those of the second. -/
theorem GADD_overlap (a : GAddr) {n : ℕ} (hn : 2 ^ 31 < n) :
    ¬ Disjoint (a.bytes n) ((GADD a n).bytes n) := by
  have hext := signExtend_toNat n
  rw [Set.not_disjoint_iff]
  split at hext
  · refine ⟨_, ⟨rfl, ?_⟩, (GADD a n).first_mem (Nat.zero_lt_of_lt hn)⟩
    simp only [GADD, BitVec.toNat_sub, BitVec.toNat_add, hext]
    omega
  · refine ⟨_, a.first_mem (Nat.zero_lt_of_lt hn), ⟨rfl, ?_⟩⟩
    simp only [GADD, BitVec.toNat_sub, BitVec.toNat_add, hext]
    omega

/-- Regions of at most `2 ^ 41` bytes, with as much between them. -/
def spread (i : ℕ) : GAddr :=
  ⟨BitVec.ofNat 64 (2 ^ 42 * i), 0, 0⟩

theorem spread_disjoint {i j m n : ℕ} (hij : i ≠ j) (hi : i < 2 ^ 21) (hj : j < 2 ^ 21)
    (hm : m ≤ 2 ^ 41) (hn : n ≤ 2 ^ 41) : Disjoint ((spread i).bytes m) ((spread j).bytes n) := by
  rw [Set.disjoint_left]
  rintro ⟨k, x⟩ ⟨-, hx⟩ ⟨-, hx'⟩
  simp only [spread, BitVec.toNat_sub, BitVec.toNat_ofNat] at hx hx'
  omega

/-- A negative offset leads between the regions. -/
theorem spread_notMem {i j n off : ℕ} (hn : n ≤ 2 ^ 41) (hoff : 2 ^ 31 ≤ off)
    (hlt : off < 2 ^ 32) :
    ((spread i).nodeID, (GADD (spread i) off).addr) ∉ (spread j).bytes n := by
  rintro ⟨-, hx⟩
  have hext := signExtend_toNat off
  rw [Nat.mod_eq_of_lt hlt, if_neg (Nat.not_lt.mpr hoff)] at hext
  simp only [spread, GADD, BitVec.toNat_sub, BitVec.toNat_add, BitVec.toNat_ofNat, hext] at hx
  omega

section Unsuitable

variable {alloc : ℕ → GAddr} {a : GAddrArray} {s : Run} {x : ℕ × ℕ}

theorem Layered.length_allNodes (ha : a.Layered) : a.allNodes.length < 2 ^ 21 := by
  have hnum := ha.num
  have hlength : a.nodes.length
      = ((List.range' 1 (a.layerNum.toNat - 1)).map fun l => fanOut ^ l).sum := by
    rw [nodes, List.length_flatMap]
    congr 1
    refine List.map_congr_left fun l hl => ?_
    rw [List.length_map, List.length_range]
    exact ha.toNat_layerSize (by have := List.mem_range'_1.mp hl; omega)
  rw [allNodes, List.length_cons, hlength]
  generalize a.layerNum.toNat = n at hnum
  interval_cases n <;> decide

theorem size_region_le (hsize : a.elementSize.toNat ≤ 2 ^ 31) (x : ℕ × ℕ) :
    (a.region alloc x).size.toNat ≤ 2 ^ 41 := by
  simp only [region, fanOut]
  split
  · rw [BitVec.toNat_mul, BitVec.toNat_ofNat]
    omega
  · decide

theorem idxOf_lt (ha : a.Layered) (hx : x ∈ a.allNodes) : a.allNodes.idxOf x < 2 ^ 21 :=
  (List.idxOf_lt_length_of_mem hx).trans ha.length_allNodes

theorem fresh_spread {count elementSize : BitVec 64} (hcount : count.toNat ≤ fanOut ^ 3)
    (hsize : elementSize.toNat ≤ 2 ^ 31) : Fresh spread count elementSize := by
  refine ⟨fun i => ?_, fun a₀ mem a s hinit => ?_⟩
  · simp only [spread, BitVec.toNat_ofNat, lineSize]
    omega
  · obtain ⟨a', s', hinit', -, helem, h⟩ := init_spec spread a₀ mem hcount
    rw [hinit'] at hinit
    cases hinit
    subst helem
    have hnodup := h.layered.nodup
    rw [h.built.regions, List.pairwise_reverse, List.pairwise_map]
    refine hnodup.imp_of_mem fun hx hy hne => ?_
    refine spread_disjoint (fun heq => hne ?_) (idxOf_lt h.layered hy) (idxOf_lt h.layered hx)
      (size_region_le hsize _) (size_region_le hsize _)
    exact (List.idxOf_inj hx).mp heq.symm

/-- The only element is longer than the table that the root is. -/
theorem Initialized.not_addressed_one (h : a.Initialized alloc s) (hapart : a.Apart alloc)
    (hone : a.arraySize.toNat = 1) (hsize : pointerSize * fanOut < a.elementSize.toNat) :
    ¬ a.Addressed s := by
  intro haddressed
  have hi : 0 < a.arraySize.toNat := by omega
  have hnum := h.one hone.le
  obtain ⟨e, s', hget, -, r, ⟨hr, -⟩, hsub⟩ := haddressed.element 0 hi
  obtain ⟨_, hget', -⟩ := h.getElementGAddr hapart hi
  rw [hget', segment, if_pos hnum, Nat.zero_mod, Nat.zero_mul] at hget
  cases hget
  rw [h.built.regions, List.mem_reverse] at hr
  obtain ⟨x, hx, rfl⟩ := List.mem_map.mp hr
  obtain rfl : x = (0, 0) := (h.layered.mem_allNodes.mp hx).resolve_right (by omega)
  rw [GADD_zero] at hsub
  have hlast := (hsub (GAddr.mem_bytes hsize (by decide))).2
  rw [region, if_neg (by omega)] at hlast
  simp only [BitVec.add_comm, BitVec.add_sub_cancel] at hlast
  exact absurd hlast (by decide)

/-- The first two elements overlap. -/
theorem Initialized.not_addressed_long (h : a.Initialized alloc s) (hapart : a.Apart alloc)
    (hmore : 1 < a.arraySize.toNat) (hsize : 2 ^ 31 < a.elementSize.toNat) : ¬ a.Addressed s := by
  intro haddressed
  obtain ⟨_, hget, -⟩ := h.getElementGAddr hapart (Nat.zero_lt_of_lt hmore)
  obtain ⟨_, hget', -⟩ := h.getElementGAddr hapart hmore
  have hsegment : a.segment 1 = a.segment 0 := rfl
  have hdisjoint := haddressed.distinct 0 1 _ _ _ _ (by decide) hget hget'
  rw [hsegment, Nat.zero_mod, Nat.zero_mul, Nat.mod_eq_of_lt (by decide), Nat.one_mul,
    GADD_zero] at hdisjoint
  exact GADD_overlap _ hsize hdisjoint

/-- An element with a negative offset is between the regions. -/
theorem Initialized.not_addressed_far (h : a.Initialized spread s) (hapart : a.Apart spread)
    (hpos : 0 < a.elementSize.toNat) (hsize : a.elementSize.toNat ≤ 2 ^ 31) {i : ℕ}
    (hi : i < a.arraySize.toNat) (hlt : i < fanOut) (hoff : 2 ^ 31 ≤ i * a.elementSize.toNat)
    (hoff' : i * a.elementSize.toNat < 2 ^ 32) : ¬ a.Addressed s := by
  intro haddressed
  obtain ⟨e, s', hget, -, r, ⟨hr, -⟩, hsub⟩ := haddressed.element i hi
  obtain ⟨_, hget', -⟩ := h.getElementGAddr hapart hi
  rw [hget', Nat.mod_eq_of_lt hlt] at hget
  cases hget
  rw [h.built.regions, List.mem_reverse] at hr
  obtain ⟨x, hx, rfl⟩ := List.mem_map.mp hr
  exact spread_notMem (size_region_le hsize x) hoff hoff' (hsub (GAddr.first_mem hpos))

end Unsuitable

/-! ## The exact condition -/

section Exact

variable {count elementSize : BitVec 64}

/-- Where the size does not suit, the offset of some element is past `2 ^ 31` bytes, but not by
more than that. -/
theorem exists_far (hpos : 0 < elementSize.toNat) (hsize : elementSize.toNat ≤ 2 ^ 31)
    (h : 2 ^ 31 ≤ (min count.toNat fanOut - 1) * elementSize.toNat) :
    ∃ i < min count.toNat fanOut, 2 ^ 31 ≤ i * elementSize.toNat ∧
      i * elementSize.toNat < 2 ^ 32 := by
  have hex : ∃ i, 2 ^ 31 ≤ i * elementSize.toNat := ⟨_, h⟩
  have hmin : Nat.find hex ≤ min count.toNat fanOut - 1 := Nat.find_min' hex h
  have hfind := Nat.find_spec hex
  obtain ⟨i, hi⟩ : ∃ i, Nat.find hex = i + 1 := by
    refine Nat.exists_eq_succ_of_ne_zero fun hzero => ?_
    rw [hzero, Nat.zero_mul] at hfind
    exact absurd hfind (by decide)
  have hbefore : i * elementSize.toNat < 2 ^ 31 :=
    Nat.lt_of_not_le (Nat.find_min hex (by omega))
  rw [hi] at hmin hfind
  refine ⟨i + 1, by omega, hfind, ?_⟩
  rw [Nat.succ_mul]
  omega

theorem Fresh.apart {alloc : ℕ → GAddr} (hfresh : Fresh alloc count elementSize) {a₀ a : GAddrArray}
    {mem : Memory} {s : Run} (hinit : init alloc a₀ count elementSize ⟨mem, [], []⟩ = some (a, s))
    (h : a.Initialized alloc s) : a.Apart alloc :=
  h.apart (hfresh.2 a₀ mem a s hinit)

/-- Where the size does not suit, allocations can be such that an element has no place. -/
theorem exists_not_sound (hcount : count.toNat ≠ 0) (hmax : count.toNat ≤ fanOut ^ 3)
    (hsize : 0 < elementSize.toNat) (hroom : ∃ alloc, Fresh alloc count elementSize)
    (h : ¬ Fits count elementSize) :
    ∃ alloc, Fresh alloc count elementSize ∧ ¬ Sound alloc count elementSize := by
  let a₀ : GAddrArray := ⟨.null, 0, 0, fun _ => 0, 0⟩
  -- it is enough to find such an array among those that `Init` leaves
  have hsound {alloc} (hfresh : Fresh alloc count elementSize)
      (hnot : ∀ (a : GAddrArray) s, a.arraySize = count → a.elementSize = elementSize →
        a.Initialized alloc s → a.Apart alloc → ¬ a.Addressed s) :
      ∃ alloc, Fresh alloc count elementSize ∧ ¬ Sound alloc count elementSize := by
    refine ⟨alloc, hfresh, fun hs => ?_⟩
    obtain ⟨a, s, hinit, harray, helement, ha⟩ := init_spec alloc a₀ (fun _ _ => 0) hmax
    obtain ⟨a', s', hinit', -, -, haddressed⟩ := hs a₀ fun _ _ => 0
    rw [hinit] at hinit'
    cases hinit'
    exact hnot a s harray helement ha (hfresh.apart hinit ha) haddressed
  unfold Fits at h
  split at h
  next hone =>
    obtain ⟨alloc, hfresh⟩ := hroom
    refine hsound hfresh fun a s harray helement ha hapart => ?_
    subst harray helement
    exact ha.not_addressed_one hapart hone (Nat.lt_of_not_le h)
  next hne =>
    rcases Nat.lt_or_ge (2 ^ 31) elementSize.toNat with hlong | hshort
    · obtain ⟨alloc, hfresh⟩ := hroom
      refine hsound hfresh fun a s harray helement ha hapart => ?_
      subst harray helement
      exact ha.not_addressed_long hapart (by omega) hlong
    · obtain ⟨i, hi, hoff, hoff'⟩ := exists_far hsize hshort (Nat.le_of_not_lt h)
      refine hsound (fresh_spread hmax hshort) fun a s harray helement ha hapart => ?_
      subst harray helement
      exact ha.not_addressed_far hapart hsize hshort (hi.trans_le (Nat.min_le_left _ _))
        (hi.trans_le (Nat.min_le_right _ _)) hoff hoff'

end Exact

instance (count elementSize : BitVec 64) : Decidable (Fits count elementSize) :=
  inferInstanceAs (Decidable (ite _ _ _))

/-- The array works with all allocations that return regions of their own, if and only if the size
of its elements suits their number.  A size for which there are no such allocations is left out. -/
theorem sound_iff_fits {count elementSize : BitVec 64} (hcount : count.toNat ≠ 0)
    (hmax : count.toNat ≤ fanOut ^ 3) (hsize : 0 < elementSize.toNat)
    (hroom : ∃ alloc, Fresh alloc count elementSize) :
    (∀ alloc, Fresh alloc count elementSize → Sound alloc count elementSize)
      ↔ Fits count elementSize := by
  constructor
  · intro hsound
    by_contra hnot
    obtain ⟨alloc, hfresh, hunsound⟩ := exists_not_sound hcount hmax hsize hroom hnot
    exact hunsound (hsound alloc hfresh)
  · intro hfits alloc hfresh a₀ mem
    obtain ⟨a, s, hinit, harray, helement, ha⟩ := init_spec alloc a₀ mem hmax
    have hapart := hfresh.apart hinit ha
    subst harray helement
    exact ⟨a, s, hinit, rfl, rfl, ha.addressed hapart hfits⟩

/-- The buckets of a hash index are found. -/
theorem sound_buckets : Sound spread 1000007 10 :=
  (sound_iff_fits (by decide) (by decide) (by decide)
    ⟨spread, fresh_spread (by decide) (by decide)⟩).mpr (by decide) spread
      (fresh_spread (by decide) (by decide))

/-- One element of more than ten kilobytes does not fit. -/
theorem not_sound_one : ∃ alloc, Fresh alloc 1 10241 ∧ ¬ Sound alloc 1 10241 :=
  exists_not_sound (by decide) (by decide) (by decide)
    ⟨spread, fresh_spread (by decide) (by decide)⟩ (by decide)

end GAddrArray

end Database

end Ting
