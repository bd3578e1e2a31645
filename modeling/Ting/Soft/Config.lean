/-
# `Ting.Soft.Config` — the configuration of a node

`DSMConfig` derives every size of a node from two numbers its user gives, the bytes of global
memory and of cache.  The numbers of blocks and of lines come from what was given; the sizes of the
two regions from that raised to a minimum and rounded up by at least a byte.  Left out are the
settings that nothing here looks at: MAC and IP addresses, port and PCI bus.

All arithmetic is that of the source: `uint64_t` for sizes, `int` for numbers, and a quotient that
is assigned to an `int` loses its upper half.
-/
import Mathlib.Data.BitVec
import Mathlib.Algebra.Order.Group.Nat

namespace Ting

/-- `DSM_CACHE_LINE_SIZE`. -/
def lineSize : ℕ := 4096

/-- `define::MB`. -/
def mb : ℕ := 1024 * 1024

/-- `define::GB`. -/
def gb : ℕ := 1024 * mb

/-- `define::kChunkSize`. -/
def kChunkSize : ℕ := 32 * mb

/-- `DSMConfig`. -/
structure DSMConfig where
  nodeNum : BitVec 32
  apptNumPerNode : BitVec 32
  systNumPerNode : BitVec 32
  gmemSizePerNode : BitVec 64
  cacheSizePerNode : BitVec 64
  clineNumPerNode : BitVec 32
  gblockNumPerNode : BitVec 32
  fpgaBridgeBarSize : BitVec 64
  cpuPoolSize : BitVec 64
  deriving DecidableEq

namespace DSMConfig

/-- A size raised to 200 MB, then to the next multiple of a megabyte above it. -/
def roundSize (u : BitVec 64) : BitVec 64 :=
  let g := if u > .ofNat 64 (200 * mb) then u else .ofNat 64 (200 * mb)
  (g / .ofNat 64 mb + 1) * .ofNat 64 mb

/-- A size in lines, as an `int`. -/
def lineNum (u : BitVec 64) : BitVec 32 :=
  (u / .ofNat 64 lineSize).setWidth 32

/-- The fields that the constructor computes. -/
def compute (uNodeNum uApptNumPerNode uSystNumPerNode : BitVec 32)
    (uGmemSizePerNode uCacheSizePerNode : BitVec 64) : DSMConfig where
  nodeNum := uNodeNum
  apptNumPerNode := uApptNumPerNode
  systNumPerNode := uSystNumPerNode
  gmemSizePerNode := roundSize uGmemSizePerNode
  cacheSizePerNode := roundSize uCacheSizePerNode
  clineNumPerNode := lineNum uCacheSizePerNode
  gblockNumPerNode := lineNum uGmemSizePerNode
  fpgaBridgeBarSize := .ofNat 64 (4 * mb)
  cpuPoolSize := .ofNat 64 gb + roundSize uGmemSizePerNode + roundSize uCacheSizePerNode +
    .ofNat 64 gb

/-- The assertions of the constructor. -/
def Accepted (c : DSMConfig) : Prop :=
  c.nodeNum.toInt ≤ 8 ∧ c.apptNumPerNode.toInt ≤ 24 ∧ c.systNumPerNode.toInt ≤ 8 ∧
    c.clineNumPerNode.toInt ≤ 5000000 ∧ c.gblockNumPerNode.toInt ≤ 5000000 ∧
    c.gmemSizePerNode + c.cacheSizePerNode + .ofNat 64 gb ≤ c.cpuPoolSize ∧
    (c.apptNumPerNode + c.systNumPerNode).signExtend 64 * 64 ≤ c.fpgaBridgeBarSize

instance (c : DSMConfig) : Decidable c.Accepted :=
  inferInstanceAs (Decidable (_ ∧ _))

/-- The constructor; `none` when an assertion fails. -/
def new (uNodeNum uApptNumPerNode uSystNumPerNode : BitVec 32)
    (uGmemSizePerNode uCacheSizePerNode : BitVec 64) : Option DSMConfig :=
  let c := compute uNodeNum uApptNumPerNode uSystNumPerNode uGmemSizePerNode uCacheSizePerNode
  if c.Accepted then some c else none

theorem new_eq_some {uNodeNum uAppt uSyst : BitVec 32} {uGmem uCache : BitVec 64} {c : DSMConfig}
    (h : new uNodeNum uAppt uSyst uGmem uCache = some c) :
    c = compute uNodeNum uAppt uSyst uGmem uCache ∧ c.Accepted := by
  obtain ⟨hacc, heq⟩ := Option.ite_none_right_eq_some.mp h
  cases heq
  exact ⟨rfl, hacc⟩

/-- `i < conf.gblock_num_per_node`, for a counter that starts at 0: how often the loop runs. -/
def gblocks (c : DSMConfig) : ℕ := c.gblockNumPerNode.toInt.toNat

/-- The same for the loop over the lines. -/
def clines (c : DSMConfig) : ℕ := c.clineNumPerNode.toInt.toNat

/-- The same for the loops over the agents. -/
def systs (c : DSMConfig) : ℕ := c.systNumPerNode.toInt.toNat

/-- The nodes. -/
def nodes (c : DSMConfig) : ℕ := c.nodeNum.toInt.toNat

/-! ## What the sizes are -/

theorem roundSize_toNat (u : BitVec 64) :
    (roundSize u).toNat = (max u.toNat (200 * mb) / mb + 1) * mb % 2 ^ 64 := by
  have hu := u.isLt
  have hg : (if u > .ofNat 64 (200 * mb) then u else BitVec.ofNat 64 (200 * mb)).toNat
      = max u.toNat (200 * mb) := by
    have hlt : u > BitVec.ofNat 64 (200 * mb) ↔ 200 * mb < u.toNat := Iff.rfl
    split
    next h => exact (max_eq_left (Nat.le_of_lt (hlt.mp h))).symm
    next h =>
      rw [max_eq_right (Nat.le_of_not_lt (fun hx => h (hlt.mpr hx)))]
      rfl
  rw [roundSize, BitVec.toNat_mul, BitVec.toNat_add, BitVec.toNat_udiv, hg]
  show ((max u.toNat (200 * mb) / mb + 1) % 2 ^ 64 * mb) % 2 ^ 64 = _
  rw [Nat.mod_mul_mod]

/-- A rounded size is a number of megabytes, so a megabyte is left above it. -/
theorem roundSize_room (u : BitVec 64) : (roundSize u).toNat + mb ≤ 2 ^ 64 := by
  rw [roundSize_toNat]
  simp only [mb]
  omega

/-- A number of lines that is positive is at most that of the size it comes from, which is then
far from the end of the 64-bit range. -/
theorem lineNum_pos {u : BitVec 64} (hle : (lineNum u).toInt ≤ 5000000)
    (hpos : 0 < (lineNum u).toInt.toNat) :
    (lineNum u).toInt.toNat * lineSize ≤ u.toNat ∧ u.toNat + 2 ^ 43 < 2 ^ 64 := by
  have hu := u.isLt
  have hn : (lineNum u).toNat = u.toNat / 4096 % 2 ^ 32 := by
    rw [lineNum, BitVec.toNat_setWidth, BitVec.toNat_udiv]
    rfl
  rw [BitVec.toInt_eq_toNat_cond, hn] at hle hpos ⊢
  unfold lineSize
  split at hle <;> rename_i hcond <;> simp only [hcond, if_true, if_false] at hpos ⊢ <;> omega

/-- Away from the end of the range, rounding adds at least a byte and keeps megabytes whole. -/
theorem roundSize_of_lt {u : BitVec 64} (h : u.toNat + 2 ^ 43 < 2 ^ 64) :
    (roundSize u).toNat = (max u.toNat (200 * mb) / mb + 1) * mb := by
  rw [roundSize_toNat]
  simp only [mb]
  omega

section Constructed

variable {uNodeNum uAppt uSyst : BitVec 32} {uGmem uCache : BitVec 64} {c : DSMConfig}

theorem gblocks_le (h : new uNodeNum uAppt uSyst uGmem uCache = some c) :
    c.gblocks ≤ 5000000 :=
  Int.toNat_le.mpr (new_eq_some h).2.2.2.2.2.1

theorem clines_le (h : new uNodeNum uAppt uSyst uGmem uCache = some c) :
    c.clines ≤ 5000000 :=
  Int.toNat_le.mpr (new_eq_some h).2.2.2.2.1

/-- A node with any block has a region for all of them. -/
theorem gblocks_fit (h : new uNodeNum uAppt uSyst uGmem uCache = some c) (hpos : 0 < c.gblocks) :
    c.gblocks * lineSize ≤ c.gmemSizePerNode.toNat ∧ c.gmemSizePerNode.toNat + 2 ^ 42 < 2 ^ 64 := by
  obtain ⟨rfl, hacc⟩ := new_eq_some h
  obtain ⟨hfit, hroom⟩ := lineNum_pos hacc.2.2.2.2.1 hpos
  have hsize : (compute uNodeNum uAppt uSyst uGmem uCache).gmemSizePerNode.toNat =
      (max uGmem.toNat (200 * mb) / mb + 1) * mb := roundSize_of_lt hroom
  rw [hsize]
  simp only [lineSize, mb] at hfit ⊢
  refine ⟨hfit.trans ?_, ?_⟩ <;> omega

end Constructed

end DSMConfig

end Ting
