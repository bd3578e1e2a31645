/-
# `Ting.Database.Memory` — global memory, as the database uses it

The database keeps its structures in global memory.  It reads and writes them as a whole, through a
`GlobalAddress` that is itself kept there as ten bytes, and it gets room for them from `Malloc`.

Memory is flat: a byte for every address of every node, with addresses that wrap around.  Lengths of
accesses are far below `2 ^ 32`, to which `DSM::Read` and `DSM::Write` cut them.
-/
import Ting.Lib.Layout
import Mathlib.Data.Set.Lattice
import Mathlib.Order.CompletePartialOrder
import Mathlib.Algebra.Group.Nat.Defs

namespace Ting

namespace Database

/-! ## Addresses -/

/-- `GlobalAddress`, which is packed. -/
structure GAddr where
  addr : BitVec 64
  nodeID : BitVec 8
  org : BitVec 8
  deriving DecidableEq

/-- `DB_Gnullptr`. -/
def GAddr.null : GAddr := ⟨0, 0, 0⟩

/-- `operator==`. -/
def GAddr.eqv (a b : GAddr) : Bool :=
  a.addr = b.addr && a.nodeID = b.nodeID

/-- `GADD`, of a `size_t`; the parameter is an `int`. -/
def GADD (a : GAddr) (off : ℕ) : GAddr :=
  { a with addr := a.addr + (BitVec.ofNat 32 off).signExtend 64 }

/-- `GADD` is exact where the `int` is not negative. -/
theorem GADD_eq (a : GAddr) {off : ℕ} (h : off < 2 ^ 31) :
    GADD a off = { a with addr := a.addr + BitVec.ofNat 64 off } := by
  have hext : (BitVec.ofNat 32 off).signExtend 64 = BitVec.ofNat 64 off := by
    rw [BitVec.signExtend_eq_setWidth_of_msb_false]
    · refine BitVec.eq_of_toNat_eq ?_
      simp only [BitVec.toNat_setWidth, BitVec.toNat_ofNat]
      omega
    · rw [BitVec.msb_eq_false_iff_two_mul_lt, BitVec.toNat_ofNat]
      omega
  rw [GADD, hext]

theorem GADD_zero (a : GAddr) : GADD a 0 = a := by
  rw [GADD_eq a (by decide), BitVec.add_zero]

theorem GADD_GADD (a : GAddr) {off off' : ℕ} (h : off + off' < 2 ^ 31) :
    GADD (GADD a off) off' = GADD a (off + off') := by
  rw [GADD_eq a (by omega), GADD_eq _ (by omega), GADD_eq a h, BitVec.add_assoc, BitVec.ofNat_add]

/-! ## Bytes -/

/-- The bytes of `size` addresses from `a` on. -/
def GAddr.bytes (a : GAddr) (size : ℕ) : Set (BitVec 8 × BitVec 64) :=
  {p | p.1 = a.nodeID ∧ (p.2 - a.addr).toNat < size}

section Bytes

variable {a b : GAddr} {m n off off' : ℕ}

theorem GAddr.mem_bytes {i : ℕ} (hi : i < n) (h : i < 2 ^ 64) :
    (a.nodeID, a.addr + BitVec.ofNat 64 i) ∈ a.bytes n := by
  refine ⟨rfl, ?_⟩
  rw [BitVec.add_comm, BitVec.add_sub_cancel, BitVec.toNat_ofNat, Nat.mod_eq_of_lt h]
  exact hi

theorem GAddr.first_mem (h : 0 < n) : (a.nodeID, a.addr) ∈ a.bytes n := by
  refine ⟨rfl, ?_⟩
  rw [BitVec.sub_self]
  exact h

/-- A part of some bytes in a row. -/
theorem GADD_bytes_subset (hoff : off < 2 ^ 31) (h : off + m ≤ n) :
    (GADD a off).bytes m ⊆ a.bytes n := by
  rw [GADD_eq a hoff]
  rintro ⟨k, x⟩ ⟨hk, hx⟩
  refine ⟨hk, ?_⟩
  simp only [BitVec.toNat_sub, BitVec.toNat_add, BitVec.toNat_ofNat] at hx ⊢
  omega

/-- Two parts, one behind the other. -/
theorem GADD_bytes_disjoint (hoff : off < 2 ^ 31) (hoff' : off' < 2 ^ 31) (h : off + m ≤ off')
    (hn : off' + n ≤ 2 ^ 64) : Disjoint ((GADD a off).bytes m) ((GADD a off').bytes n) := by
  rw [GADD_eq a hoff, GADD_eq a hoff', Set.disjoint_left]
  rintro ⟨k, x⟩ ⟨-, hx⟩ ⟨-, hx'⟩
  simp only [BitVec.toNat_sub, BitVec.toNat_add, BitVec.toNat_ofNat] at hx hx'
  omega

end Bytes

/-! ## Reading and writing -/

/-- A byte for every address of every node. -/
abbrev Memory := BitVec 8 → BitVec 64 → BitVec 8

namespace Memory

variable {α β : Type}

/-- `Read` of a value. -/
def read (m : Memory) (l : Layout α) (a : GAddr) : α :=
  l.get fun i => m a.nodeID (a.addr + BitVec.ofNat 64 i)

/-- `Write` of a value. -/
def write (m : Memory) (l : Layout α) (a : GAddr) (x : α) : Memory := fun n y =>
  if n = a.nodeID ∧ (y - a.addr).toNat < l.size then l.put x (y - a.addr).toNat else m n y

variable {m m' : Memory} {l : Layout α} {k : Layout β} {a b : GAddr}

/-- A value is as long as its bytes are. -/
theorem read_congr (hl : l.size ≤ 2 ^ 64) (h : ∀ p ∈ a.bytes l.size, m p.1 p.2 = m' p.1 p.2) :
    m.read l a = m'.read l a :=
  l.get_congr fun i hi => h (a.nodeID, a.addr + BitVec.ofNat 64 i)
    (GAddr.mem_bytes hi (hi.trans_le hl))

theorem write_of_notMem (x : α) {p : BitVec 8 × BitVec 64} (h : p ∉ a.bytes l.size) :
    m.write l a x p.1 p.2 = m p.1 p.2 :=
  if_neg h

theorem read_write (hl : l.size ≤ 2 ^ 64) (x : α) : (m.write l a x).read l a = x := by
  refine (l.get_congr fun i hi => ?_).trans (l.get_put x)
  have hback : (a.addr + BitVec.ofNat 64 i - a.addr).toNat = i := by
    rw [BitVec.add_comm, BitVec.add_sub_cancel, BitVec.toNat_ofNat,
      Nat.mod_eq_of_lt (hi.trans_le hl)]
  simp only [write, hback, hi, true_and, if_true]

/-- What is written elsewhere is not read. -/
theorem read_write_of_disjoint (hl : l.size ≤ 2 ^ 64) (x : β)
    (h : Disjoint (a.bytes l.size) (b.bytes k.size)) : (m.write k b x).read l a = m.read l a :=
  read_congr hl fun _ hp => write_of_notMem x (Set.disjoint_left.mp h hp)

end Memory

/-! ## Regions -/

/-- What `Malloc` returns: its first byte and the size that was asked for. -/
structure Region where
  start : GAddr
  size : BitVec 64
  deriving DecidableEq

def Region.bytes (r : Region) : Set (BitVec 8 × BitVec 64) :=
  r.start.bytes r.size.toNat

/-! ## Cells -/

/-- A value at an address. -/
structure Cell where
  {α : Type}
  layout : Layout α
  addr : GAddr
  value : α

namespace Cell

def bytes (c : Cell) : Set (BitVec 8 × BitVec 64) :=
  c.addr.bytes c.layout.size

/-- The value is in memory. -/
def Held (m : Memory) (c : Cell) : Prop :=
  m.read c.layout c.addr = c.value

/-- `Write` of the value. -/
def put (m : Memory) (c : Cell) : Memory :=
  m.write c.layout c.addr c.value

variable {m m' : Memory} {c d : Cell}

/-- The value has bytes of its own. -/
def Small (c : Cell) : Prop :=
  c.layout.size ≤ 2 ^ 64

theorem Small.held_put (h : c.Small) (m : Memory) : c.Held (c.put m) :=
  Memory.read_write h c.value

theorem Held.put_of_disjoint (h : c.Held m) (hc : c.Small) (hd : Disjoint c.bytes d.bytes) :
    c.Held (d.put m) :=
  (Memory.read_write_of_disjoint hc d.value hd).trans h

/-- `Write` of several values, in their order. -/
def putAll (m : Memory) (cells : List Cell) : Memory :=
  cells.foldl put m

theorem putAll_of_notMem {p : BitVec 8 × BitVec 64} :
    ∀ (cells : List Cell) (m : Memory), (∀ c ∈ cells, p ∉ c.bytes) →
      putAll m cells p.1 p.2 = m p.1 p.2
  | [], _, _ => rfl
  | c :: cells, m, h =>
    (putAll_of_notMem cells (c.put m) fun d hd => h d (List.mem_cons_of_mem c hd)).trans
      (Memory.write_of_notMem c.value (h c List.mem_cons_self))

theorem Held.putAll_of_disjoint (hc : c.Small) :
    ∀ (cells : List Cell) (m : Memory), c.Held m → (∀ d ∈ cells, Disjoint c.bytes d.bytes) →
      c.Held (putAll m cells)
  | [], _, h, _ => h
  | d :: cells, m, h, hd =>
    Held.putAll_of_disjoint hc cells (d.put m) (h.put_of_disjoint hc (hd d List.mem_cons_self))
      fun x hx => hd x (List.mem_cons_of_mem d hx)

/-- Values that are apart are all in memory in the end. -/
theorem held_putAll : ∀ (cells : List Cell) (m : Memory), (∀ c ∈ cells, c.Small) →
    cells.Pairwise (fun c d => Disjoint c.bytes d.bytes) → ∀ c ∈ cells, c.Held (putAll m cells)
  | [], _, _, _ => nofun
  | d :: cells, m, hsmall, hapart => by
    obtain ⟨hd, hcells⟩ := List.pairwise_cons.mp hapart
    intro c hc
    rcases List.mem_cons.mp hc with rfl | hc
    · exact Held.putAll_of_disjoint (hsmall c List.mem_cons_self) cells _
        ((hsmall c List.mem_cons_self).held_put m) hd
    · exact held_putAll cells _ (fun x hx => hsmall x (List.mem_cons_of_mem d hx)) hcells c hc

end Cell

/-! ## Values behind one another -/

/-- The cells are behind one another, at offsets of `base` from `lo` up to `hi`. -/
inductive Laid (base : GAddr) : ℕ → ℕ → List Cell → Prop
  | nil {lo hi : ℕ} (h : lo ≤ hi) : Laid base lo hi []
  | cons {lo off hi : ℕ} {c : Cell} {cells : List Cell} (h : lo ≤ off) (hc : c.addr = GADD base off)
      (hcells : Laid base (off + c.layout.size) hi cells) : Laid base lo hi (c :: cells)

namespace Laid

variable {base : GAddr} {lo mid hi x : ℕ} {c : Cell} {cells cells' : List Cell}

theorem le (h : Laid base lo hi cells) : lo ≤ hi := by
  induction h with
  | nil h => exact h
  | cons hlo _ _ ih => exact hlo.trans ((Nat.le_add_right _ _).trans ih)

theorem weaken (h : Laid base lo mid cells) (hmid : mid ≤ hi) : Laid base lo hi cells := by
  induction h with
  | nil hle => exact .nil (hle.trans hmid)
  | cons hlo hc _ ih => exact .cons hlo hc (ih hmid)

theorem lower (h : Laid base mid hi cells) (hlo : lo ≤ mid) : Laid base lo hi cells := by
  cases h with
  | nil hle => exact .nil (hlo.trans hle)
  | cons hoff hc hcells => exact .cons (hlo.trans hoff) hc hcells

theorem append (h : Laid base lo mid cells) (h' : Laid base mid hi cells') :
    Laid base lo hi (cells ++ cells') := by
  induction h with
  | nil hle => exact h'.lower hle
  | cons hlo hc _ ih => exact .cons hlo hc (ih h')

/-- What is laid out in a part is laid out in the whole. -/
theorem shift (h : Laid (GADD base x) lo hi cells) (hx : x + hi < 2 ^ 31) :
    Laid base (x + lo) (x + hi) cells := by
  induction h with
  | nil hle => exact .nil (Nat.add_le_add_left hle x)
  | cons hlo hc hcells ih =>
    have hoff := hcells.le
    refine .cons (Nat.add_le_add_left hlo x) (hc.trans (GADD_GADD base (by omega))) ?_
    rw [Nat.add_assoc]
    exact ih hx

/-- Where a cell is. -/
theorem place (h : Laid base lo hi cells) (hc : c ∈ cells) :
    ∃ off, lo ≤ off ∧ off + c.layout.size ≤ hi ∧ c.addr = GADD base off := by
  induction h with
  | nil _ => cases hc
  | cons hlo haddr hcells ih =>
    rcases List.mem_cons.mp hc with rfl | hc
    · exact ⟨_, hlo, hcells.le, haddr⟩
    · obtain ⟨off, hoff, hsize, hc⟩ := ih hc
      exact ⟨off, by omega, hsize, hc⟩

theorem small (h : Laid base lo hi cells) (hhi : hi < 2 ^ 31) (hc : c ∈ cells) : c.Small := by
  obtain ⟨off, -, hsize, -⟩ := h.place hc
  unfold Cell.Small
  omega

theorem bytes_subset (h : Laid base lo hi cells) (hhi : hi < 2 ^ 31) (hc : c ∈ cells) :
    c.bytes ⊆ base.bytes hi := by
  obtain ⟨off, -, hsize, haddr⟩ := h.place hc
  rw [Cell.bytes, haddr]
  exact GADD_bytes_subset (by omega) hsize

/-- A cell is behind those before it, whatever is in between. -/
theorem pairwise (h : Laid base lo hi cells) (hhi : hi < 2 ^ 31) :
    cells.Pairwise fun c d => Disjoint c.bytes d.bytes := by
  induction h with
  | nil _ => exact .nil
  | cons _ hc hcells ih =>
    refine .cons (fun d hd => ?_) (ih hhi)
    obtain ⟨off, hoff, hsize, haddr⟩ := hcells.place hd
    have hle := hcells.le
    rw [Cell.bytes, Cell.bytes, hc, haddr]
    exact GADD_bytes_disjoint (by omega) (by omega) hoff (by omega)

/-- All of them are in memory in the end. -/
theorem held (h : Laid base lo hi cells) (hhi : hi < 2 ^ 31) (m : Memory) (hc : c ∈ cells) :
    c.Held (Cell.putAll m cells) :=
  Cell.held_putAll cells m (fun _ => h.small hhi) (h.pairwise hhi) c hc

end Laid

/-! ## Layouts -/

/-- `GAddr`. -/
def gaddr : Layout GAddr :=
  ((Layout.word 8).seq ((Layout.word 1).seq (.word 1))).map
    (fun x => ⟨x.1, x.2.1, x.2.2⟩) (fun a => (a.addr, a.nodeID, a.org)) fun _ => rfl

/-- `uint64_t` and `size_t`. -/
def uint64 : Layout (BitVec 64) := .word 8

@[simp] theorem gaddr_size : gaddr.size = 10 := rfl

@[simp] theorem uint64_size : uint64.size = 8 := rfl

end Database

end Ting
