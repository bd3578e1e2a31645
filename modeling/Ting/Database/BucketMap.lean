/-
# `Ting.Database.BucketMap` — a bucket is a map from keys to lists of records

A bucket is pictured by its nodes and their arrays, and the picture says which values the cells of
memory have: no two of them overlap.  A call changes one cell, or it adds cells in fresh regions and
changes the one that is to point to them.

What is listed under a key are the records that were inserted under it, those of the newest array
first.
-/
import Ting.Database.HashBucket
import Mathlib.Data.List.Nodup
import Mathlib.Data.List.Perm.Basic

namespace Ting

namespace Database

namespace BucketHeader

/-! ## Cells in memory -/

/-- The cells are in memory, apart from each other and in regions of the bucket. -/
structure Stored (b : BucketHeader) (cells : List Cell) : Prop where
  small : ∀ c ∈ cells, c.Small
  held : ∀ c ∈ cells, c.Held b.mem
  apart : cells.Pairwise fun c d => Disjoint c.bytes d.bytes
  known : ∀ c ∈ cells, ∃ r ∈ b.regions, c.bytes ⊆ r.bytes
  nonnull : ∀ c ∈ cells, ¬ c.addr.eqv .null

section Stored

variable {b : BucketHeader} {cells cells' : List Cell} {c d : Cell}

theorem Stored.perm (h : b.Stored cells) (hp : cells.Perm cells') : b.Stored cells' where
  small c hc := h.small c (hp.mem_iff.mpr hc)
  held c hc := h.held c (hp.mem_iff.mpr hc)
  apart := (hp.pairwise_iff fun hd => hd.symm).mp h.apart
  known c hc := h.known c (hp.mem_iff.mpr hc)
  nonnull c hc := h.nonnull c (hp.mem_iff.mpr hc)

/-- Another value in the first cell. -/
theorem Stored.change (h : b.Stored (c :: cells)) (haddr : d.addr = c.addr)
    (hsize : d.layout.size = c.layout.size) :
    (b.write d.layout d.addr d.value).Stored (d :: cells) := by
  have hbytes : d.bytes = c.bytes := by rw [Cell.bytes, Cell.bytes, haddr, hsize]
  have hd : d.Small := hsize.trans_le (h.small c List.mem_cons_self)
  have hapart := List.pairwise_cons.mp h.apart
  have hsmall {x} (hx : x ∈ cells) : x.Small := h.small x (List.mem_cons_of_mem c hx)
  refine ⟨fun x hx => ?_, fun x hx => ?_, ?_, fun x hx => ?_, fun x hx => ?_⟩
  · rcases List.mem_cons.mp hx with rfl | hx
    · exact hd
    · exact hsmall hx
  · rcases List.mem_cons.mp hx with rfl | hx
    · exact hd.held_put b.mem
    · exact (h.held x (List.mem_cons_of_mem c hx)).put_of_disjoint (hsmall hx)
        (hbytes ▸ (hapart.1 x hx).symm)
  · exact List.pairwise_cons.mpr ⟨fun x hx => hbytes ▸ hapart.1 x hx, hapart.2⟩
  · rcases List.mem_cons.mp hx with rfl | hx
    · exact hbytes ▸ h.known c List.mem_cons_self
    · exact h.known x (List.mem_cons_of_mem c hx)
  · rcases List.mem_cons.mp hx with rfl | hx
    · exact haddr ▸ h.nonnull c List.mem_cons_self
    · exact h.nonnull x (List.mem_cons_of_mem c hx)

/-- `Malloc` returns a region of its own, and not `Null`. -/
def Fresh (b : BucketHeader) (r : Region) : Prop :=
  ¬ r.start.eqv .null ∧ ∀ r' ∈ b.regions, Disjoint r.bytes r'.bytes

/-- A new cell in a fresh region. -/
theorem Stored.add (h : b.Stored cells) {size : BitVec 64} (hfresh : b.Fresh ⟨d.addr, size⟩)
    (hsize : d.layout.size = size.toNat) :
    ((b.malloc d.addr size).write d.layout d.addr d.value).Stored (d :: cells) := by
  have hbytes : d.bytes = Region.bytes ⟨d.addr, size⟩ := by rw [Cell.bytes, Region.bytes, hsize]
  have hdisjoint {x} (hx : x ∈ cells) : Disjoint d.bytes x.bytes := by
    obtain ⟨r, hr, hsub⟩ := h.known x hx
    rw [hbytes]
    exact (hfresh.2 r hr).mono_right hsub
  have hd : d.Small := by
    rw [Cell.Small, hsize]
    exact size.isLt.le
  refine ⟨fun x hx => ?_, fun x hx => ?_, ?_, fun x hx => ?_, fun x hx => ?_⟩
  · rcases List.mem_cons.mp hx with rfl | hx
    · exact hd
    · exact h.small x hx
  · rcases List.mem_cons.mp hx with rfl | hx
    · exact hd.held_put b.mem
    · exact (h.held x hx).put_of_disjoint (h.small x hx) (hdisjoint hx).symm
  · exact List.pairwise_cons.mpr ⟨fun x hx => hdisjoint hx, h.apart⟩
  · rcases List.mem_cons.mp hx with rfl | hx
    · exact ⟨_, List.mem_cons_self, hbytes.subset⟩
    · obtain ⟨r, hr, hsub⟩ := h.known x hx
      exact ⟨r, List.mem_cons_of_mem _ hr, hsub⟩
  · rcases List.mem_cons.mp hx with rfl | hx
    · exact hfresh.1
    · exact h.nonnull x hx

end Stored

/-! ## Pictures -/

/-- An array of records, of which one slot is used or both. -/
structure Slots where
  addr : GAddr
  ptrs : Fin slotNum → GAddr
  full : Bool

def Slots.records (a : Slots) : List GAddr :=
  if a.full then [a.ptrs 0, a.ptrs 1] else [a.ptrs 0]

/-- A node with its arrays, the newest first. -/
structure Node where
  addr : GAddr
  key : IndexKey
  arrays : List Slots

def Node.records (n : Node) : List GAddr :=
  n.arrays.flatMap Slots.records

/-- What points to the first array. -/
def firstArray : List Slots → GAddr
  | [] => .null
  | a :: _ => a.addr

/-- What points to the first node, if `e` comes after the last. -/
def firstNode : List Node → GAddr → GAddr
  | [], e => e
  | n :: _, _ => n.addr

def itemsOf (a : Slots) (next : GAddr) : Items :=
  ⟨a.ptrs, if a.full then 2 else 1, next⟩

def itemsCell (a : Slots) (next : GAddr) : Cell :=
  ⟨Items.layout, a.addr, itemsOf a next⟩

def arrayCells : List Slots → List Cell
  | [] => []
  | a :: as => itemsCell a (firstArray as) :: arrayCells as

def nodeOf (n : Node) (next : GAddr) : BucketNode :=
  ⟨n.key, next, firstArray n.arrays⟩

def nodeCell (n : Node) (next : GAddr) : Cell :=
  ⟨BucketNode.layout, n.addr, nodeOf n next⟩

def chainCells : List Node → GAddr → List Cell
  | [], _ => []
  | n :: ns, e => nodeCell n (firstNode ns e) :: (arrayCells n.arrays ++ chainCells ns e)

theorem chainCells_append (ns ms : List Node) (e : GAddr) :
    chainCells (ns ++ ms) e = chainCells ns (firstNode ms e) ++ chainCells ms e := by
  induction ns with
  | nil => rfl
  | cons n ns ih =>
    have hfirst : firstNode (ns ++ ms) e = firstNode ns (firstNode ms e) := by
      cases ns with
      | nil => rfl
      | cons => rfl
    rw [List.cons_append, chainCells, chainCells, ih, hfirst, List.cons_append, List.append_assoc]

/-- The picture of a bucket. -/
structure Pictured (b : BucketHeader) (chain : List Node) : Prop where
  head : b.head = firstNode chain .null
  stored : b.Stored (chainCells chain .null)
  keys : (chain.map Node.key).Nodup
  arrays : ∀ n ∈ chain, n.arrays ≠ []
  records : ∀ n ∈ chain, ∀ r ∈ n.records, ¬ r.eqv .null

/-! ## Loops -/

section Loops

variable {m : Memory} {chain pre post : List Node} {n : Node} {key : IndexKey}

theorem eqv_self (a : GAddr) : a.eqv a := by
  simp [GAddr.eqv]

/-- The address of the last node, or `prev` if there is none. -/
def lastNode : List Node → GAddr → GAddr
  | [], prev => prev
  | n :: ns, _ => lastNode ns n.addr

/-- A round of the loop at a node with another key. -/
theorem find_next {e : GAddr} (hheld : (nodeCell n e).Held m) (hnull : ¬ n.addr.eqv .null)
    (hkey : n.key ≠ key) (fuel : ℕ) (prev : GAddr) (node : BucketNode) :
    find m key (fuel + 1) n.addr prev node = find m key fuel e n.addr (nodeOf n e) := by
  have hread : m.read BucketNode.layout n.addr = nodeOf n e := hheld
  rw [find, if_neg hnull]
  simp only [hread]
  exact if_neg hkey

/-- The loop ends at the node with the key. -/
theorem find_found {e : GAddr} (hheld : ∀ c ∈ chainCells (pre ++ n :: post) e, c.Held m)
    (hnull : ∀ c ∈ chainCells (pre ++ n :: post) e, ¬ c.addr.eqv .null) (hkey : n.key = key)
    (hpre : key ∉ pre.map Node.key) {fuel : ℕ} (hfuel : pre.length < fuel) (prev : GAddr)
    (node : BucketNode) :
    ∃ prev', find m key fuel (firstNode (pre ++ n :: post) e) prev node
      = some (n.addr, prev', nodeOf n (firstNode post e)) := by
  induction pre generalizing fuel prev node with
  | nil =>
    obtain ⟨fuel, rfl⟩ := Nat.exists_eq_succ_of_ne_zero (Nat.ne_zero_of_lt hfuel)
    have hread : m.read BucketNode.layout n.addr = nodeOf n (firstNode post e) :=
      hheld _ List.mem_cons_self
    have haddr : ¬ n.addr.eqv .null := hnull _ List.mem_cons_self
    refine ⟨prev, ?_⟩
    rw [List.nil_append, firstNode, find, if_neg haddr]
    simp only [hread]
    exact if_pos hkey
  | cons n' pre ih =>
    obtain ⟨fuel, rfl⟩ := Nat.exists_eq_succ_of_ne_zero (Nat.ne_zero_of_lt hfuel)
    rw [List.map_cons, List.mem_cons, not_or] at hpre
    have htail {c} (hc : c ∈ chainCells (pre ++ n :: post) e) :
        c ∈ chainCells (n' :: pre ++ n :: post) e :=
      List.mem_cons_of_mem _ (List.mem_append_right _ hc)
    obtain ⟨prev', hfind⟩ := ih (fun c hc => hheld c (htail hc)) (fun c hc => hnull c (htail hc))
      hpre.2 (Nat.lt_of_succ_lt_succ hfuel) n'.addr (nodeOf n' (firstNode (pre ++ n :: post) e))
    refine ⟨prev', ?_⟩
    rw [← hfind]
    exact find_next (hheld _ List.mem_cons_self) (hnull _ List.mem_cons_self) (Ne.symm hpre.1) _ _ _

/-- Without such a node it ends after the last one. -/
theorem find_missing (hheld : ∀ c ∈ chainCells chain .null, c.Held m)
    (hnull : ∀ c ∈ chainCells chain .null, ¬ c.addr.eqv .null) (hkey : key ∉ chain.map Node.key)
    {fuel : ℕ} (hfuel : chain.length < fuel) (prev : GAddr) (node : BucketNode) :
    ∃ node', find m key fuel (firstNode chain .null) prev node
      = some (.null, lastNode chain prev, node') := by
  induction chain generalizing fuel prev node with
  | nil =>
    obtain ⟨fuel, rfl⟩ := Nat.exists_eq_succ_of_ne_zero (Nat.ne_zero_of_lt hfuel)
    exact ⟨node, if_pos (eqv_self _)⟩
  | cons n chain ih =>
    obtain ⟨fuel, rfl⟩ := Nat.exists_eq_succ_of_ne_zero (Nat.ne_zero_of_lt hfuel)
    rw [List.map_cons, List.mem_cons, not_or] at hkey
    have htail {c} (hc : c ∈ chainCells chain .null) : c ∈ chainCells (n :: chain) .null :=
      List.mem_cons_of_mem _ (List.mem_append_right _ hc)
    rw [lastNode]
    obtain ⟨node', hfind⟩ := ih (fun c hc => hheld c (htail hc)) (fun c hc => hnull c (htail hc))
      hkey.2 (Nat.lt_of_succ_lt_succ hfuel) n.addr (nodeOf n (firstNode chain .null))
    refine ⟨node', ?_⟩
    rw [← hfind]
    exact find_next (hheld _ List.mem_cons_self) (hnull _ List.mem_cons_self) (Ne.symm hkey.1) _ _ _

end Loops

end BucketHeader

/-! ## Iteration -/

namespace ItemsIter

open BucketHeader

variable {m : Memory}

/-- The first call at an array reads it. -/
theorem getNext_new {a : Slots} {next : GAddr} (hheld : (itemsCell a next).Held m)
    (hnull : ¬ a.addr.eqv .null) (items : Items) :
    (new a.addr items).getNext m = some (a.ptrs 0,
      if a.full then ⟨a.addr, 1, itemsOf a next⟩ else .new next (itemsOf a next)) := by
  have hread : m.read Items.layout a.addr = itemsOf a next := hheld
  cases hfull : a.full with
  | true => simp [getNext, new, hnull, hread, itemsOf, hfull]
  | false => simp [getNext, new, hnull, hread, itemsOf, hfull]

/-- The second goes on to the next array. -/
theorem getNext_second {a : Slots} {next : GAddr} (hnull : ¬ a.addr.eqv .null)
    (hfull : a.full = true) :
    (⟨a.addr, 1, itemsOf a next⟩ : ItemsIter).getNext m
      = some (a.ptrs 1, .new next (itemsOf a next)) := by
  simp [getNext, new, hnull, itemsOf, hfull]

theorem collect_cons {it it' : ItemsIter} {r : GAddr} (h : it.getNext m = some (r, it'))
    (hr : ¬ r.eqv .null) (fuel : ℕ) :
    collect m (fuel + 1) it = (collect m fuel it').map (r :: ·) := by
  rw [collect, h]
  simp only [Option.bind_eq_bind, Option.bind_some, hr, Bool.false_eq_true, if_false]
  cases collect m fuel it' <;> rfl

/-- The iterator gives the records of all arrays. -/
theorem collect_arrays (as : List Slots) (hheld : ∀ c ∈ arrayCells as, c.Held m)
    (hnull : ∀ c ∈ arrayCells as, ¬ c.addr.eqv .null)
    (hrecords : ∀ r ∈ as.flatMap Slots.records, ¬ r.eqv .null) {fuel : ℕ}
    (hfuel : (as.flatMap Slots.records).length < fuel) (items : Items) :
    collect m fuel (.new (firstArray as) items) = some (as.flatMap Slots.records) := by
  induction as generalizing fuel items with
  | nil =>
    obtain ⟨fuel, rfl⟩ := Nat.exists_eq_succ_of_ne_zero (Nat.ne_zero_of_lt hfuel)
    rfl
  | cons a as ih =>
    have haddr : ¬ a.addr.eqv .null := hnull _ List.mem_cons_self
    rw [List.flatMap_cons, List.forall_mem_append] at hrecords
    rw [List.flatMap_cons, List.length_append] at hfuel
    have hrest {k} (hk : (as.flatMap Slots.records).length < k) (items : Items) :
        collect m k (.new (firstArray as) items) = some (as.flatMap Slots.records) :=
      ih (fun c hc => hheld c (List.mem_cons_of_mem _ hc))
        (fun c hc => hnull c (List.mem_cons_of_mem _ hc)) hrecords.2 hk items
    have hfirst := getNext_new (hheld _ List.mem_cons_self) haddr items
    rw [firstArray, List.flatMap_cons]
    cases hfull : a.full with
    | true =>
      simp only [Slots.records, hfull, if_true, List.length_cons, List.length_nil] at hfuel hrecords ⊢
      obtain ⟨fuel, rfl⟩ : ∃ k, fuel = k + 1 + 1 := ⟨fuel - 2, by omega⟩
      rw [hfull, if_pos rfl] at hfirst
      rw [collect_cons hfirst (hrecords.1 _ List.mem_cons_self),
        collect_cons (getNext_second haddr hfull)
          (hrecords.1 _ (List.mem_cons_of_mem _ List.mem_cons_self)), hrest (by omega)]
      rfl
    | false =>
      simp only [Slots.records, hfull, Bool.false_eq_true, if_false, List.length_cons,
        List.length_nil] at hfuel hrecords ⊢
      obtain ⟨fuel, rfl⟩ : ∃ k, fuel = k + 1 := ⟨fuel - 1, by omega⟩
      rw [hfull, if_neg Bool.false_ne_true] at hfirst
      rw [collect_cons hfirst (hrecords.1 _ List.mem_cons_self), hrest (by omega)]
      rfl

end ItemsIter

/-! ## Searching -/

namespace BucketHeader

variable {b : BucketHeader} {chain pre post : List Node} {n : Node} {key : IndexKey} {fuel : ℕ}

/-- What is listed under a key, once it is searched for and then iterated over. -/
def list (fuel : ℕ) (b : BucketHeader) (key : IndexKey) (items : Items) :
    Option (Option (List GAddr)) := do
  match ← b.searchNode fuel key with
  | none => return none
  | some itemsList => return some (← ItemsIter.collect b.mem fuel (.new itemsList items))

theorem Pictured.find_found (h : b.Pictured (pre ++ n :: post)) (hfuel : pre.length < fuel)
    (prev : GAddr) (node : BucketNode) :
    ∃ prev', find b.mem n.key fuel b.head prev node
      = some (n.addr, prev', nodeOf n (firstNode post .null)) := by
  have hkeys := h.keys
  rw [List.map_append, List.nodup_append] at hkeys
  have hpre : n.key ∉ pre.map Node.key := fun hmem =>
    hkeys.2.2 _ hmem _ List.mem_cons_self rfl
  rw [h.head]
  exact BucketHeader.find_found h.stored.held h.stored.nonnull rfl hpre hfuel prev node

theorem Pictured.searchNode_found (h : b.Pictured (pre ++ n :: post)) (hfuel : pre.length < fuel) :
    b.searchNode fuel n.key = some (some (firstArray n.arrays)) := by
  obtain ⟨prev', hfind⟩ := h.find_found hfuel .null ⟨n.key, .null, .null⟩
  have hnull : ¬ n.addr.eqv .null := by
    refine h.stored.nonnull (nodeCell n (firstNode post .null)) ?_
    rw [chainCells_append]
    exact List.mem_append_right _ List.mem_cons_self
  rw [searchNode, hfind]
  exact if_pos hnull

theorem Pictured.searchNode_missing (h : b.Pictured chain) (hkey : key ∉ chain.map Node.key)
    (hfuel : chain.length < fuel) : b.searchNode fuel key = some none := by
  obtain ⟨node', hfind⟩ := find_missing h.stored.held h.stored.nonnull hkey hfuel .null
    ⟨key, .null, .null⟩
  rw [← h.head] at hfind
  rw [searchNode, hfind]
  rfl

/-- The records under a key, in the picture. -/
def listed (chain : List Node) (key : IndexKey) : Option (List GAddr) :=
  (chain.find? (·.key = key)).map Node.records

theorem listed_eq_some {l : List GAddr} (h : listed chain key = some l) :
    ∃ pre n post, chain = pre ++ n :: post ∧ n.key = key ∧ n.records = l := by
  obtain ⟨n, hfind, hl⟩ := Option.map_eq_some_iff.mp h
  obtain ⟨hkey, pre, post, hchain, -⟩ := List.find?_eq_some_iff_append.mp hfind
  exact ⟨pre, n, post, hchain, of_decide_eq_true hkey, hl⟩

theorem listed_eq_none : listed chain key = none ↔ key ∉ chain.map Node.key := by
  simp [listed, List.find?_eq_none]

theorem mem_arrayCells_of_chain {c : Cell} {e : GAddr} (hc : c ∈ arrayCells n.arrays) :
    c ∈ chainCells (pre ++ n :: post) e := by
  rw [chainCells_append]
  exact List.mem_append_right _ (List.mem_cons_of_mem _ (List.mem_append_left _ hc))

/-- A key lists its records. -/
theorem Pictured.list_eq (h : b.Pictured chain) (hfuel : chain.length < fuel)
    (hrecords : ∀ l, listed chain key = some l → l.length < fuel) (items : Items) :
    b.list fuel key items = some (listed chain key) := by
  cases hlisted : listed chain key with
  | none =>
    rw [list, h.searchNode_missing (listed_eq_none.mp hlisted) hfuel]
    rfl
  | some l =>
    obtain ⟨pre, n, post, rfl, rfl, rfl⟩ := listed_eq_some hlisted
    have hn : n ∈ pre ++ n :: post := List.mem_append_right _ List.mem_cons_self
    have hpre : pre.length < fuel := by
      rw [List.length_append] at hfuel
      omega
    have hcollect : ItemsIter.collect b.mem fuel (.new (firstArray n.arrays) items)
        = some n.records :=
      ItemsIter.collect_arrays n.arrays
        (fun c hc => h.stored.held c (mem_arrayCells_of_chain hc))
        (fun c hc => h.stored.nonnull c (mem_arrayCells_of_chain hc)) (h.records n hn)
        (hrecords _ hlisted) items
    rw [list, h.searchNode_found hpre]
    simp only [Option.bind_eq_bind, Option.bind_some, hcollect]
    rfl

/-! ## Inserting -/

/-- What a call of `InsertNode` may be given: a record, and regions of its own. -/
structure Admits (b : BucketHeader) (recordPtr : GAddr) (f : Found) : Prop where
  record : ¬ recordPtr.eqv .null
  items : b.Fresh ⟨f.newItemsAddr, 48⟩
  node : (b.malloc f.newItemsAddr 48).Fresh ⟨f.newNodeAddr, 32⟩

/-- A record in the second slot. -/
def Slots.push (a : Slots) (r : GAddr) : Slots :=
  ⟨a.addr, Function.update a.ptrs 1 r, true⟩

/-- A new array for a record. -/
def newSlots (f : Found) (r : GAddr) : Slots :=
  ⟨f.newItemsAddr, Function.update f.newItems.recordPtrs 0 r, false⟩

/-- A node with one more record. -/
def Node.insert (n : Node) (r : GAddr) (f : Found) : Node :=
  match n.arrays with
  | [] => n
  | a :: as => ⟨n.addr, n.key, if a.full then newSlots f r :: a :: as else a.push r :: as⟩

/-- A node for a key that there was no node for. -/
def newNode (f : Found) (key : IndexKey) (r : GAddr) : Node :=
  ⟨f.newNodeAddr, key, [newSlots f r]⟩

section Items

variable {a : Slots} {r : GAddr} {f : Found}

theorem addRecordPtr_push (h : a.full = false) (next : GAddr) :
    (itemsOf a next).addRecordPtr r = some (true, itemsOf (a.push r) next) := by
  simp [Items.addRecordPtr, itemsOf, Slots.push, slotNum, h]

theorem addRecordPtr_full (h : a.full = true) (next : GAddr) :
    (itemsOf a next).addRecordPtr r = some (false, itemsOf a next) := by
  simp [Items.addRecordPtr, itemsOf, h]

theorem addRecordPtr_init (f : Found) (r : GAddr) :
    f.newItems.init.addRecordPtr r = some (true, itemsOf (newSlots f r) .null) := by
  simp [Items.addRecordPtr, Items.init, itemsOf, newSlots]

theorem records_push (h : a.full = false) : (a.push r).records = a.records ++ [r] := by
  simp [Slots.push, Slots.records, h]

theorem records_newSlots : (newSlots f r).records = [r] := by
  simp [newSlots, Slots.records]

theorem addr_insert (n : Node) (r : GAddr) (f : Found) : (n.insert r f).addr = n.addr := by
  obtain ⟨addr, key, _ | ⟨a, as⟩⟩ := n <;> rfl

theorem key_insert (n : Node) (r : GAddr) (f : Found) : (n.insert r f).key = n.key := by
  obtain ⟨addr, key, _ | ⟨a, as⟩⟩ := n <;> rfl

theorem arrays_insert {n : Node} (h : n.arrays ≠ []) : (n.insert r f).arrays ≠ [] := by
  obtain ⟨addr, key, _ | ⟨a, as⟩⟩ := n
  · exact absurd rfl h
  · simp only [Node.insert]
    split <;> exact List.cons_ne_nil _ _

/-- A node lists one more record. -/
theorem records_insert {n : Node} (h : n.arrays ≠ []) :
    (n.insert r f).records.Perm (r :: n.records) := by
  obtain ⟨addr, key, arrays⟩ := n
  cases arrays with
  | nil => exact absurd rfl h
  | cons a as =>
    simp only [Node.insert, Node.records]
    cases hfull : a.full with
    | true =>
      rw [if_pos rfl, List.flatMap_cons, records_newSlots]
      exact List.Perm.refl _
    | false =>
      rw [if_neg Bool.false_ne_true, List.flatMap_cons, List.flatMap_cons, records_push hfull,
        List.append_assoc]
      exact List.perm_middle

end Items

/-- The cells of a chain, those of one node first. -/
theorem chainCells_perm (pre post : List Node) (n : Node) :
    (chainCells (pre ++ n :: post) .null).Perm (nodeCell n (firstNode post .null) ::
      (arrayCells n.arrays ++ (chainCells pre n.addr ++ chainCells post .null))) := by
  rw [chainCells_append]
  refine List.perm_middle.trans (List.Perm.cons _ ?_)
  rw [← List.append_assoc, ← List.append_assoc]
  exact List.Perm.append_right _ List.perm_append_comm

/-- The picture after a node has been given one more record. -/
theorem Pictured.insert {r : GAddr} {f : Found} (h : b.Pictured (pre ++ n :: post))
    (hr : ¬ r.eqv .null) {b' : BucketHeader} (hhead : b'.head = b.head)
    (hstored : b'.Stored (chainCells (pre ++ n.insert r f :: post) .null)) :
    b'.Pictured (pre ++ n.insert r f :: post) := by
  have hkeys : (pre ++ n.insert r f :: post).map Node.key = (pre ++ n :: post).map Node.key := by
    rw [List.map_append, List.map_append, List.map_cons, List.map_cons, key_insert]
  have hn : n.arrays ≠ [] := h.arrays n (List.mem_append_right _ List.mem_cons_self)
  have hmem {x} (hx : x ∈ pre ++ n.insert r f :: post) :
      x = n.insert r f ∨ x ∈ pre ++ n :: post := by
    simp only [List.mem_append, List.mem_cons] at hx ⊢
    tauto
  refine ⟨?_, hstored, hkeys ▸ h.keys, fun x hx => ?_, fun x hx s hs => ?_⟩
  · rw [hhead, h.head]
    cases pre with
    | nil => exact (addr_insert n r f).symm
    | cons => rfl
  · rcases hmem hx with rfl | hx
    · exact arrays_insert hn
    · exact h.arrays x hx
  · rcases hmem hx with rfl | hx
    · rcases List.mem_cons.mp ((records_insert hn).subset hs) with rfl | hs
      · exact hr
      · exact h.records n (List.mem_append_right _ List.mem_cons_self) s hs
    · exact h.records x hx s hs

section InsertNode

variable {r : GAddr} {f : Found}

/-- The cells of a node, with what else is in the chain. -/
theorem Pictured.stored_node (h : b.Pictured (pre ++ n :: post)) :
    b.Stored (nodeCell n (firstNode post .null) ::
      (arrayCells n.arrays ++ (chainCells pre n.addr ++ chainCells post .null))) :=
  h.stored.perm (chainCells_perm pre post n)

theorem Stored.of_node {n' : Node} (haddr : n'.addr = n.addr)
    (h : b.Stored (nodeCell n' (firstNode post .null) ::
      (arrayCells n'.arrays ++ (chainCells pre n.addr ++ chainCells post .null)))) :
    b.Stored (chainCells (pre ++ n' :: post) .null) := by
  refine h.perm ?_
  rw [← haddr]
  exact (chainCells_perm pre post n').symm

/-- A key that there is a node for gets another record. -/
theorem Pictured.insertNode_found (h : b.Pictured (pre ++ n :: post)) (ha : b.Admits r f) :
    ∃ b', (∀ fuel, pre.length < fuel → b.insertNode fuel n.key r f = some (false, b')) ∧
      b'.Pictured (pre ++ n.insert r f :: post) := by
  have hstored := h.stored_node
  have hnull : ¬ n.addr.eqv .null := hstored.nonnull _ List.mem_cons_self
  have harrays : n.arrays ≠ [] := h.arrays n (List.mem_append_right _ List.mem_cons_self)
  obtain ⟨addr, key, _ | ⟨a, as⟩⟩ := n
  · exact absurd rfl harrays
  have hread : b.mem.read Items.layout a.addr = itemsOf a (firstArray as) :=
    hstored.held (itemsCell a (firstArray as)) (List.mem_cons_of_mem _ List.mem_cons_self)
  cases hfull : a.full with
  | false =>
    have hinsert : Node.insert ⟨addr, key, a :: as⟩ r f = ⟨addr, key, a.push r :: as⟩ := by
      simp [Node.insert, hfull]
    refine ⟨b.write Items.layout a.addr (itemsOf (a.push r) (firstArray as)), fun fuel hfuel => ?_,
      h.insert ha.record rfl ?_⟩
    · obtain ⟨prev', hfind⟩ := h.find_found hfuel .null ⟨key, .null, .null⟩
      rw [insertNode, hfind]
      simp only [Option.bind_eq_bind, Option.bind_some, hnull, if_true, nodeOf, firstArray, hread,
        addRecordPtr_push hfull]
      rfl
    · rw [hinsert]
      refine Stored.of_node (n := ⟨addr, key, a :: as⟩) rfl ?_
      exact ((hstored.perm (.swap _ _ _)).change (d := itemsCell (a.push r) (firstArray as)) rfl
        rfl).perm (.swap _ _ _)
  | true =>
    have hinsert : Node.insert ⟨addr, key, a :: as⟩ r f = ⟨addr, key, newSlots f r :: a :: as⟩ := by
      simp [Node.insert, hfull]
    refine ⟨((b.malloc f.newItemsAddr 48).write Items.layout f.newItemsAddr
      (itemsOf (newSlots f r) a.addr)).write BucketNode.layout addr
        (nodeOf ⟨addr, key, newSlots f r :: a :: as⟩ (firstNode post .null)), fun fuel hfuel => ?_,
      h.insert ha.record rfl ?_⟩
    · obtain ⟨prev', hfind⟩ := h.find_found hfuel .null ⟨key, .null, .null⟩
      rw [insertNode, hfind]
      simp only [Option.bind_eq_bind, Option.bind_some, hnull, nodeOf, firstArray, hread,
        addRecordPtr_full hfull, addRecordPtr_init]
      rfl
    · rw [hinsert]
      refine Stored.of_node (n := ⟨addr, key, a :: as⟩) rfl ?_
      have hadd := hstored.add (d := itemsCell (newSlots f r) a.addr) ha.items Items.size_layout
      exact (hadd.perm (.swap _ _ _)).change
        (d := nodeCell ⟨addr, key, newSlots f r :: a :: as⟩ (firstNode post .null)) rfl rfl

theorem lastNode_append (ns : List Node) (n : Node) (prev : GAddr) :
    lastNode (ns ++ [n]) prev = n.addr := by
  induction ns generalizing prev with
  | nil => rfl
  | cons n' ns ih => exact ih n'.addr

/-- The picture after a node has been added. -/
theorem Pictured.append (h : b.Pictured chain) (hr : ¬ r.eqv .null)
    (hkey : key ∉ chain.map Node.key) {b' : BucketHeader}
    (hhead : b'.head = firstNode (chain ++ [newNode f key r]) .null)
    (hstored : b'.Stored (chainCells (chain ++ [newNode f key r]) .null)) :
    b'.Pictured (chain ++ [newNode f key r]) := by
  refine ⟨hhead, hstored, ?_, fun x hx => ?_, fun x hx s hs => ?_⟩
  · rw [List.map_append, List.nodup_append]
    refine ⟨h.keys, List.nodup_singleton _, fun k hk k' hk' heq => hkey ?_⟩
    obtain rfl : k' = key := List.mem_singleton.mp hk'
    exact heq ▸ hk
  · rcases List.mem_append.mp hx with hx | hx
    · exact h.arrays x hx
    · rw [List.mem_singleton.mp hx]
      exact List.cons_ne_nil _ _
  · rcases List.mem_append.mp hx with hx | hx
    · exact h.records x hx s hs
    · rw [List.mem_singleton.mp hx, newNode, Node.records, List.flatMap_singleton,
        records_newSlots, List.mem_singleton] at hs
      exact hs ▸ hr

/-- The bucket with the new array and the new node, which nothing points to yet. -/
def added (b : BucketHeader) (key : IndexKey) (r : GAddr) (f : Found) : BucketHeader :=
  (((b.malloc f.newItemsAddr 48).write Items.layout f.newItemsAddr
    (itemsOf (newSlots f r) .null)).malloc f.newNodeAddr 32).write BucketNode.layout f.newNodeAddr
      (nodeOf (newNode f key r) .null)

theorem Stored.added {cells : List Cell} (h : b.Stored cells) (ha : b.Admits r f) :
    (b.added key r f).Stored (chainCells [newNode f key r] .null ++ cells) :=
  (h.add (d := itemsCell (newSlots f r) .null) ha.items Items.size_layout).add
    (d := nodeCell (newNode f key r) .null) ha.node BucketNode.size_layout

theorem Stored.head {cells : List Cell} (h : b.Stored cells) (a : GAddr) :
    ({ b with head := a } : BucketHeader).Stored cells :=
  ⟨h.small, h.held, h.apart, h.known, h.nonnull⟩

/-- `InsertNode`, where there is no node for the key. -/
theorem insertNode_of_find {prev : GAddr} {node : BucketNode}
    (hfind : find b.mem key fuel b.head .null ⟨key, .null, .null⟩ = some (.null, prev, node)) :
    b.insertNode fuel key r f =
      if ¬ prev.eqv .null then
        guard (((b.added key r f).mem.read BucketNode.layout prev).next.eqv .null) >>= fun _ =>
          some (true, (b.added key r f).write BucketNode.layout prev
            { (b.added key r f).mem.read BucketNode.layout prev with next := f.newNodeAddr })
      else guard (b.head.eqv .null) >>= fun _ =>
        some (true, { b.added key r f with head := f.newNodeAddr }) := by
  rw [insertNode, hfind]
  simp only [Option.bind_eq_bind, Option.bind_some, addRecordPtr_init]
  rfl

/-- A key that there is no node for gets one. -/
theorem Pictured.insertNode_missing (h : b.Pictured chain) (ha : b.Admits r f)
    (hkey : key ∉ chain.map Node.key) :
    ∃ b', (∀ fuel, chain.length < fuel → b.insertNode fuel key r f = some (true, b')) ∧
      b'.Pictured (chain ++ [newNode f key r]) := by
  have hfind {fuel} (hfuel : chain.length < fuel) :=
    find_missing h.stored.held h.stored.nonnull hkey hfuel .null ⟨key, .null, .null⟩
  rw [← h.head] at hfind
  rcases chain.eq_nil_or_concat with rfl | ⟨pre, n, rfl⟩
  · have hhead : b.head.eqv .null := by
      rw [h.head]
      exact eqv_self _
    have hlast : (lastNode [] .null).eqv .null := eqv_self _
    refine ⟨{ b.added key r f with head := f.newNodeAddr }, fun fuel hfuel => ?_,
      h.append ha.record hkey rfl ((h.stored.added ha).head _)⟩
    obtain ⟨node', hfind⟩ := hfind hfuel
    rw [insertNode_of_find hfind, if_neg (not_not.mpr hlast), guard, if_pos hhead]
    rfl
  · -- the last node is to point to the new one
    rw [List.concat_eq_append] at *
    have hadded : (b.added key r f).Stored _ := h.stored_node.added ha
    have hstored := hadded.perm List.perm_middle
    have hread : (b.added key r f).mem.read BucketNode.layout n.addr = nodeOf n .null :=
      hstored.held _ List.mem_cons_self
    have hnull : ¬ n.addr.eqv .null := hstored.nonnull _ List.mem_cons_self
    refine ⟨(b.added key r f).write BucketNode.layout n.addr (nodeOf n f.newNodeAddr),
      fun fuel hfuel => ?_, h.append ha.record hkey ?_ ?_⟩
    · obtain ⟨node', hfind⟩ := hfind hfuel
      rw [lastNode_append] at hfind
      rw [insertNode_of_find hfind, if_pos hnull, hread]
      rfl
    · exact h.head.trans (by cases pre <;> rfl)
    · rw [List.append_assoc]
      refine Stored.of_node (n := n) rfl ?_
      refine (hstored.change (d := nodeCell n f.newNodeAddr) rfl rfl).perm (.cons _ ?_)
      rw [chainCells.eq_1, List.append_nil]
      refine List.perm_append_comm.trans ?_
      rw [List.append_assoc]
      rfl

end InsertNode

/-! ## Runs -/

/-- A call. -/
inductive Op
  | insert (key : IndexKey) (recordPtr : GAddr) (f : Found)
  | search (key : IndexKey)

/-- The call, with what it answers. -/
def step (fuel : ℕ) (b : BucketHeader) : Op → Option (Bool × BucketHeader)
  | .insert key r f => b.insertNode fuel key r f
  | .search key => (b.searchNode fuel key).map fun found => (found.isSome, b)

/-- With enough fuel, the call returns. -/
def Returns (b : BucketHeader) (op : Op) (answer : Bool) (b' : BucketHeader) : Prop :=
  ∃ bound, ∀ fuel > bound, b.step fuel op = some (answer, b')

/-- With enough fuel, this is listed under the key. -/
def Lists (b : BucketHeader) (key : IndexKey) (l : Option (List GAddr)) : Prop :=
  ∃ bound, ∀ fuel > bound, ∀ items, b.list fuel key items = some l

/-- What a call is given is as `Malloc` and the caller promise. -/
def Op.Admitted (b : BucketHeader) : Op → Prop
  | .insert _ r f => b.Admits r f
  | .search _ => True

/-- The bucket after some calls. -/
inductive Reached : List Op → BucketHeader → Prop
  | init (mem : Memory) : Reached [] (init mem)
  | step {ops : List Op} {b b' : BucketHeader} {op : Op} {answer : Bool} (h : Reached ops b)
      (hop : op.Admitted b) (hstep : b.Returns op answer b') : Reached (ops ++ [op]) b'

/-- The record that a call inserts under a key. -/
def Op.inserts (key : IndexKey) : Op → Option GAddr
  | .insert k r _ => if k = key then some r else none
  | .search _ => none

/-- The records that have been inserted under a key. -/
def inserted (ops : List Op) (key : IndexKey) : List GAddr :=
  ops.filterMap (Op.inserts key)

/-- What a map answers after the calls `ops`. -/
def Op.answer (ops : List Op) : Op → Bool
  | .insert key _ _ => (inserted ops key).isEmpty
  | .search key => !(inserted ops key).isEmpty

/-- The list of a key has the records that were inserted, if there are any. -/
def Agrees (l : Option (List GAddr)) (records : List GAddr) : Prop :=
  match l with
  | none => records = []
  | some l => l.Perm records ∧ records ≠ []

section Runs

variable {ops : List Op} {op : Op} {b' : BucketHeader} {l l' : Option (List GAddr)}
  {records : List GAddr}

theorem Lists.unique (h : b.Lists key l) (h' : b.Lists key l') : l = l' := by
  obtain ⟨n, hn⟩ := h
  obtain ⟨n', hn'⟩ := h'
  have items : Items := ⟨fun _ => .null, 0, .null⟩
  have heq := hn (n + n' + 1) (by omega) items
  rw [hn' _ (by omega)] at heq
  exact (Option.some.inj heq).symm

theorem Returns.unique {out out' : Bool} {b'' : BucketHeader} (h : b.Returns op out b')
    (h' : b.Returns op out' b'') : out = out' ∧ b' = b'' := by
  obtain ⟨n, hn⟩ := h
  obtain ⟨n', hn'⟩ := h'
  have heq := hn (n + n' + 1) (by omega)
  rw [hn' _ (by omega)] at heq
  obtain ⟨rfl, rfl⟩ := Prod.mk.inj (Option.some.inj heq)
  exact ⟨rfl, rfl⟩

theorem Pictured.lists (h : b.Pictured chain) (key : IndexKey) : b.Lists key (listed chain key) := by
  refine ⟨chain.length + ((listed chain key).getD []).length, fun fuel hfuel items =>
    h.list_eq (by omega) (fun l hl => ?_) items⟩
  rw [hl] at hfuel
  simp only [Option.getD_some] at hfuel
  omega

theorem inserted_append (ops : List Op) (op : Op) (key : IndexKey) :
    inserted (ops ++ [op]) key = inserted ops key ++ (op.inserts key).toList := by
  rw [inserted, List.filterMap_append]
  cases h : op.inserts key <;> simp [inserted, h]

/-! ### What a call does to the lists -/

theorem listed_insert (hkeys : ((pre ++ n :: post).map Node.key).Nodup) (r : GAddr) (f : Found)
    (key : IndexKey) : listed (pre ++ n.insert r f :: post) key
      = if n.key = key then some (n.insert r f).records else listed (pre ++ n :: post) key := by
  rcases Classical.em (n.key = key) with rfl | hkey
  · have hpre : pre.find? (·.key = n.key) = none := by
      rw [List.map_append, List.nodup_append] at hkeys
      refine List.find?_eq_none.mpr fun x hx hxkey => ?_
      exact hkeys.2.2 x.key (List.mem_map_of_mem hx) n.key List.mem_cons_self
        (of_decide_eq_true hxkey)
    simp only [listed, List.find?_append, hpre, List.find?_cons, key_insert, decide_true,
      Option.none_or, Option.map_some, if_true]
  · simp only [listed, List.find?_append, List.find?_cons, key_insert, hkey, decide_false, if_false]

theorem listed_append (hkey : key ∉ chain.map Node.key) (r : GAddr) (f : Found) (key' : IndexKey) :
    listed (chain ++ [newNode f key r]) key' = if key = key' then some [r] else listed chain key' := by
  have hnew : (newNode f key r).records = [r] := by
    rw [newNode, Node.records, List.flatMap_singleton, records_newSlots]
  split
  next heq =>
    subst heq
    have hnone := Option.map_eq_none_iff.mp (listed_eq_none.mpr hkey)
    simp only [listed, List.find?_append, hnone, Option.none_or]
    simp [newNode, ← hnew]
  next hne =>
    simp only [listed, List.find?_append, List.find?_cons, newNode, hne, decide_false,
      List.find?_nil, Option.or_none]

/-- The bucket is the map that the calls make up. -/
def Refines (b : BucketHeader) (ops : List Op) : Prop :=
  ∃ chain, b.Pictured chain ∧ ∀ key, Agrees (listed chain key) (inserted ops key)

theorem Refines.init (mem : Memory) : (init mem).Refines [] :=
  ⟨[], ⟨rfl, ⟨nofun, nofun, .nil, nofun, nofun⟩, .nil, nofun, nofun⟩, fun _ => rfl⟩

theorem Pictured.lists_iff (h : b.Pictured chain) : b.Lists key l ↔ l = listed chain key :=
  ⟨fun hl => hl.unique (h.lists key), fun hl => hl ▸ h.lists key⟩

theorem Agrees.isSome (h : Agrees l records) : l.isSome = !records.isEmpty := by
  cases l with
  | none =>
    obtain rfl : records = [] := h
    rfl
  | some l =>
    cases records with
    | nil => exact absurd rfl h.2
    | cons => rfl

theorem Agrees.perm (h : Agrees l records) : (l.getD []).Perm records := by
  cases l with
  | none =>
    obtain rfl : records = [] := h
    exact List.Perm.refl _
  | some l => exact h.1

/-- Searching finds the keys that have a list. -/
theorem Pictured.searchNode (h : b.Pictured chain) (key : IndexKey) :
    b.Returns (.search key) (listed chain key).isSome b := by
  refine ⟨chain.length, fun fuel hfuel => ?_⟩
  rw [step]
  cases hlisted : listed chain key with
  | none =>
    rw [h.searchNode_missing (listed_eq_none.mp hlisted) hfuel]
    rfl
  | some l =>
    obtain ⟨pre, n, post, rfl, rfl, rfl⟩ := listed_eq_some hlisted
    rw [List.length_append] at hfuel
    rw [h.searchNode_found (by omega)]
    rfl

/-- Inserting adds a record to the list of its key. -/
theorem Pictured.insertNode {r : GAddr} {f : Found} (h : b.Pictured chain) (ha : b.Admits r f)
    (key : IndexKey) :
    ∃ b' chain', b.Returns (.insert key r f) (listed chain key).isNone b' ∧ b'.Pictured chain' ∧
      ∀ k, if key = k then
          ∃ l, listed chain' k = some l ∧ l.Perm (r :: (listed chain k).getD [])
        else listed chain' k = listed chain k := by
  cases hlisted : listed chain key with
  | none =>
    have hkey := listed_eq_none.mp hlisted
    obtain ⟨b', hinsert, hb'⟩ := h.insertNode_missing ha hkey
    refine ⟨b', _, ⟨_, hinsert⟩, hb', fun k => ?_⟩
    rw [listed_append hkey]
    split
    next heq =>
      subst heq
      rw [hlisted]
      exact ⟨_, rfl, List.Perm.refl _⟩
    next => rfl
  | some l =>
    obtain ⟨pre, n, post, rfl, rfl, rfl⟩ := listed_eq_some hlisted
    have harrays := h.arrays n (List.mem_append_right _ List.mem_cons_self)
    obtain ⟨b', hinsert, hb'⟩ := h.insertNode_found ha
    refine ⟨b', _, ⟨_, hinsert⟩, hb', fun k => ?_⟩
    rw [listed_insert h.keys]
    split
    next heq =>
      subst heq
      rw [hlisted]
      exact ⟨_, rfl, records_insert harrays⟩
    next => rfl

/-- A call answers as the map does, and leaves the lists of other keys as they are. -/
theorem Refines.step (h : b.Refines ops) (hop : op.Admitted b) :
    ∃ b', b.Returns op (op.answer ops) b' ∧ b'.Refines (ops ++ [op]) ∧
      ∀ key, op.inserts key = none → ∀ l, b'.Lists key l ↔ b.Lists key l := by
  obtain ⟨chain, hchain, hagrees⟩ := h
  cases op with
  | search key =>
    have hsearch := hchain.searchNode key
    rw [(hagrees key).isSome] at hsearch
    refine ⟨b, hsearch, ⟨chain, hchain, fun k => ?_⟩, fun _ _ _ => Iff.rfl⟩
    rw [inserted_append, Op.inserts, Option.toList_none, List.append_nil]
    exact hagrees k
  | insert key r f =>
    obtain ⟨b', chain', hinsert, hb', hlisted⟩ := hchain.insertNode hop key
    have hanswer : (listed chain key).isNone = (inserted ops key).isEmpty := by
      rw [← Option.not_isSome, (hagrees key).isSome, Bool.not_not]
    rw [hanswer] at hinsert
    refine ⟨b', hinsert, ⟨chain', hb', fun k => ?_⟩, fun k hk l => ?_⟩
    · have hk := hlisted k
      rw [inserted_append, Op.inserts]
      split at hk
      next heq =>
        obtain ⟨l, hl, hperm⟩ := hk
        rw [hl, if_pos heq]
        refine ⟨?_, List.append_ne_nil_of_right_ne_nil _ (List.cons_ne_nil r [])⟩
        exact (hperm.trans ((hagrees k).perm.cons r)).trans (List.perm_append_singleton r _).symm
      next hne =>
        rw [hk, if_neg hne, Option.toList_none, List.append_nil]
        exact hagrees k
    · have hne : key ≠ k := fun heq => by
        rw [Op.inserts, if_pos heq] at hk
        cases hk
      have hsame := hlisted k
      rw [if_neg hne] at hsame
      rw [hb'.lists_iff, hchain.lists_iff, hsame]

theorem Reached.refines (h : Reached ops b) : b.Refines ops := by
  induction h with
  | init mem => exact .init mem
  | step _ hop hstep ih =>
    obtain ⟨b', hreturns, hrefines, -⟩ := ih.step hop
    exact (hreturns.unique hstep).2 ▸ hrefines

/-- A bucket is a map from keys to lists of records.  After any calls, every call returns and answers
as the map does, without changing the lists of other keys, and every key lists the records that were
inserted under it. -/
theorem reached_faithful (h : Reached ops b) :
    (∀ op, op.Admitted b → ∃ b', b.Returns op (op.answer ops) b' ∧
      ∀ key, op.inserts key = none → ∀ l, b'.Lists key l ↔ b.Lists key l) ∧
    ∀ key, ∃ l, b.Lists key l ∧ Agrees l (inserted ops key) := by
  refine ⟨fun op hop => ?_, fun key => ?_⟩
  · obtain ⟨b', hreturns, -, hlists⟩ := h.refines.step hop
    exact ⟨b', hreturns, hlists⟩
  · obtain ⟨chain, hchain, hagrees⟩ := h.refines
    exact ⟨_, hchain.lists key, hagrees key⟩

theorem Fresh.of_empty {mem : Memory} {r : Region} (h : ¬ r.start.eqv .null) : (init mem).Fresh r :=
  ⟨h, nofun⟩

/-- One record under one key, in memory that was zero. -/
theorem reached_faithful_insert : ∃ b, Reached [.insert 5 ⟨64, 1, 0⟩
      ⟨⟨4096, 0, 0⟩, ⟨8192, 0, 0⟩, ⟨fun _ => .null, 0, .null⟩⟩] b ∧
    ∃ l, b.Lists 5 (some l) ∧ l.Perm [⟨64, 1, 0⟩] := by
  have hop : Op.Admitted (BucketHeader.init fun _ _ => 0) (.insert 5 ⟨64, 1, 0⟩
      ⟨⟨4096, 0, 0⟩, ⟨8192, 0, 0⟩, ⟨fun _ => .null, 0, .null⟩⟩) := by
    refine ⟨by decide, .of_empty (by decide), by decide, fun r hr => ?_⟩
    obtain rfl := List.mem_singleton.mp hr
    rw [Set.disjoint_left]
    rintro ⟨k, x⟩ ⟨-, hx⟩ ⟨-, hx'⟩
    simp only [BitVec.toNat_sub, BitVec.ofNat_eq_ofNat, BitVec.toNat_ofNat] at hx hx'
    omega
  obtain ⟨b, hreturns, -⟩ := (Refines.init fun _ _ => 0).step hop
  have hreached := (Reached.init fun _ _ => 0).step hop hreturns
  obtain ⟨l, hlists, hagrees⟩ := (reached_faithful hreached).2 5
  cases l with
  | none => cases hagrees
  | some l => exact ⟨b, hreached, l, hlists, hagrees.1⟩

end Runs

end BucketHeader

end Database

end Ting
