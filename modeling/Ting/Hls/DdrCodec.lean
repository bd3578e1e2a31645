/-
# `Ting.Hls.DdrCodec` — an entry in two words

The directory keeps its entries in DDR memory, each in two words of 512 bits.
`dir_data_e_to_ddr_w_part1` and `_part2` write the fields of an entry into the words slice by slice,
`ddr_r_to_dir_data_e_part1` and `_part2` read them back.  The slices of the second word are 65 bits
wide for values of 64: each of them clears the lowest bit of the next, before that is written.
-/
import Ting.Hls.Pipeline
import Ting.Hls.Codec

namespace Ting

open BitRange

/-! ## Structs -/

/-- `struct_dir_data_e`, bit for bit. -/
structure StructDirDataE where
  dirGblockAddr : BitVec 64
  dirGblockIndex : BitVec 32
  dirGblockBitmap : NodeId → BitVec 8
  state : BitVec 8
  replicaCount : BitVec 8
  agentClineAddr : NodeId → BitVec 64
  deriving DecidableEq

/-- `struct_ddr_w`. -/
structure StructDdrW where
  wdata : BitVec 512
  wlast : BitVec 1
  wstrb : BitVec 64

/-- `struct_ddr_r`. -/
structure StructDdrR where
  rdata : BitVec 512
  rlast : BitVec 1
  rresp : BitVec 2
  rid : BitVec 6

/-! ## Slices -/

/-- `dir_data_e_to_ddr_w_part1`. -/
def dirDataEToDdrWPart1 (e : StructDirDataE) (w : StructDdrW) : StructDdrW :=
  let d := w.wdata
  let d := setSlice d 63 0 e.dirGblockAddr
  let d := setSlice d 95 64 e.dirGblockIndex
  let d := (List.finRange 8).foldl
    (fun d (i : NodeId) => setSlice d (95 + 8 * (i + 1)) (96 + 8 * i) (e.dirGblockBitmap i)) d
  let d := setSlice d 167 160 e.state
  let d := setSlice d 175 168 e.replicaCount
  { wdata := d, wstrb := 0xffffffffffffffff, wlast := 0 }

/-- `dir_data_e_to_ddr_w_part2`. -/
def dirDataEToDdrWPart2 (e : StructDirDataE) (w : StructDdrW) : StructDdrW where
  wdata := (List.finRange 8).foldl
    (fun d (i : NodeId) => setSlice d (64 * (i + 1)) (64 * i) (e.agentClineAddr i)) w.wdata
  wstrb := 0xffffffffffffffff
  wlast := 1

/-- `ddr_r_to_dir_data_e_part1`. -/
def ddrRToDirDataEPart1 (r : StructDdrR) (e : StructDirDataE) : StructDirDataE :=
  { e with
    dirGblockAddr := slice r.rdata 63 0
    dirGblockIndex := slice r.rdata 95 64
    dirGblockBitmap := fun i => slice r.rdata (95 + 8 * (i + 1)) (96 + 8 * i)
    state := slice r.rdata 167 160
    replicaCount := slice r.rdata 175 168 }

/-- `ddr_r_to_dir_data_e_part2`. -/
def ddrRToDirDataEPart2 (r : StructDdrR) (e : StructDirDataE) : StructDirDataE :=
  { e with agentClineAddr := fun i => slice r.rdata (64 * (i + 1)) (64 * i) }

/-! ## Round trips -/

/-- The entry made of two halves. -/
def StructDirDataE.join (e e' : StructDirDataE) : StructDirDataE :=
  { e with agentClineAddr := e'.agentClineAddr }

/-- The bits outside the bitmap. -/
theorem slice_ddrBitmap_of_disjoint {k hi lo : ℕ} (b : NodeId → BitVec 8) (w : BitVec 512)
    (h : hi < 96 ∨ 159 < lo) :
    (slice ((List.finRange 8).foldl (fun w (i : NodeId) =>
      setSlice w (95 + 8 * (i + 1)) (96 + 8 * i) (b i)) w) hi lo : BitVec k) = slice w hi lo :=
  slice_cells_of_disjoint 95 b w h

theorem slice_ddrBitmap (b : NodeId → BitVec 8) (w : BitVec 512) (i : NodeId) :
    slice ((List.finRange 8).foldl (fun w (i : NodeId) =>
      setSlice w (95 + 8 * (i + 1)) (96 + 8 * i) (b i)) w) (95 + 8 * (i + 1)) (96 + 8 * i) = b i :=
  slice_cells 95 b w i (by decide)

/-- The first word brings back everything but the addresses of the replicas. -/
theorem ddrRToDirDataEPart1_part1 (e d : StructDirDataE) (w : StructDdrW) {r : StructDdrR}
    (h : r.rdata = (dirDataEToDdrWPart1 e w).wdata) : ddrRToDirDataEPart1 r d = e.join d := by
  have hbitmap : ∀ i : NodeId, slice (dirDataEToDdrWPart1 e w).wdata (95 + 8 * (i + 1)) (96 + 8 * i)
      = e.dirGblockBitmap i := by
    intro i
    have := i.isLt
    simp only [dirDataEToDdrWPart1]
    rw [slice_setSlice_of_disjoint (by omega), slice_setSlice_of_disjoint (by omega)]
    exact slice_ddrBitmap e.dirGblockBitmap _ i
  unfold ddrRToDirDataEPart1 StructDirDataE.join
  simp only [h, hbitmap]
  congr 1 <;>
    simp (disch := omega) only [dirDataEToDdrWPart1, slice_setSlice_of_disjoint, slice_setSlice,
      slice_ddrBitmap_of_disjoint]

/-- The second word brings back the addresses. -/
theorem ddrRToDirDataEPart2_part2 (e d : StructDirDataE) (w : StructDdrW) {r : StructDdrR}
    (h : r.rdata = (dirDataEToDdrWPart2 e w).wdata) : ddrRToDirDataEPart2 r d = d.join e := by
  have haddr : ∀ i : NodeId, slice (dirDataEToDdrWPart2 e w).wdata (64 * (i + 1)) (64 * i)
      = e.agentClineAddr i := by
    intro i
    have := i.isLt
    refine slice_foldl_ascending (fun i : NodeId => 64 * ((i : ℕ) + 1)) (fun i => 64 * i)
      e.agentClineAddr (by omega) (by omega) _ _ (List.mem_finRange i) ?_
    refine (List.pairwise_lt_finRange 8).imp fun {i j} hlt => ?_
    have := Fin.lt_def.mp hlt
    omega
  unfold ddrRToDirDataEPart2 StructDirDataE.join
  simp only [h, haddr]

/-! ## Words that are halves of entries -/

/-- The value of a `RawState`. -/
def RawState.code : RawState → BitVec 8
  | .sUnshared => 0
  | .sShared => 1
  | .sDirty => 2
  | .sToUnshared => 3
  | .sToShared => 4
  | .sToDirty => 5

/-- The struct of an entry. -/
def DirDataE.toStruct (e : DirDataE) : StructDirDataE where
  dirGblockAddr := e.dirGblockAddr
  dirGblockIndex := e.dirGblockIndex
  dirGblockBitmap := fun n => if e.dirGblockBitmap n then 1 else 0
  state := e.state.code
  replicaCount := e.replicaCount
  agentClineAddr := e.agentClineAddr

/-- What `joinWords` makes of two halves is what the two functions read. -/
theorem DirDataE.read_joinWords (e e' : DirDataE) (d : StructDirDataE) (w w' : StructDdrW)
    {r r' : StructDdrR} (h : r.rdata = (dirDataEToDdrWPart1 e.toStruct w).wdata)
    (h' : r'.rdata = (dirDataEToDdrWPart2 e'.toStruct w').wdata) :
    ddrRToDirDataEPart2 r' (ddrRToDirDataEPart1 r d) = (joinWords e e').toStruct := by
  rw [ddrRToDirDataEPart1_part1 _ _ w h, ddrRToDirDataEPart2_part2 _ _ w' h']
  rfl

end Ting
