/-
# `Ting.Soft.GlobalAddress` — addresses and tags

A line of a cache holds one block, and every access of a line looks at its address only
through `getIndex` and `nodeID`, so an address is taken to be the `Block` it lies in.  Indices
run below `max_gblock_num_per_node`, so 32 bits are enough.
-/
import Ting.Hls.Message

namespace Ting

/-- `GlobalAddress::getTag`: the index, shifted by the width of `nodeID`, plus `nodeID`. -/
def Block.getTag (b : Block) : BitVec 64 :=
  (b.index.zeroExtend 64 <<< 8) + BitVec.ofNat 64 b.nodeID

theorem Block.getTag_toNat (b : Block) : b.getTag.toNat = b.index.toNat * 256 + b.nodeID := by
  have hi := b.index.isLt
  have hn := b.nodeID.isLt
  simp only [getTag, BitVec.toNat_add, BitVec.toNat_shiftLeft, BitVec.truncate_eq_setWidth,
    BitVec.toNat_setWidth, BitVec.toNat_ofNat, Nat.shiftLeft_eq]
  omega

/-- Distinct blocks have distinct tags. -/
theorem Block.getTag_inj {b b' : Block} (h : b.getTag = b'.getTag) : b = b' := by
  have ht := congrArg BitVec.toNat h
  rw [getTag_toNat, getTag_toNat] at ht
  have hn := b.nodeID.isLt
  have hn' := b'.nodeID.isLt
  obtain ⟨n, i⟩ := b
  obtain ⟨n', i'⟩ := b'
  have hnode : n = n' := Fin.ext (by simp only at ht hn hn'; omega)
  have hindex : i = i' := BitVec.eq_of_toNat_eq (by simp only at ht hn hn'; omega)
  rw [hnode, hindex]

@[simp] theorem Block.getTag_eq {b b' : Block} : b.getTag = b'.getTag ↔ b = b' :=
  ⟨getTag_inj, fun h => h ▸ rfl⟩

/-- The line a header names is that of its block. -/
def Header.tagged (d : Header) : Bool :=
  d.clineTag = d.block.getTag

end Ting
