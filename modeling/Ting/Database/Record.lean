/-
# `Ting.Database.Record` — records and their columns

A record is the bytes of a row, and its schema says where the columns are.  The columns lie one
behind the other, unless their sizes add up to more than a `size_t` holds; so a column is changed
without touching the others, in the record and in global memory.

A column is copied from a buffer of the caller, or to one, and as many bytes as it has.  The last
column of a schema is the visibility of the record.
-/
import Ting.Database.Catalogue

namespace Ting

namespace Database

/-! ## Where a column is -/

namespace RecordSchema

/-- `GetSchemaSize`. -/
def getSchemaSize (s : RecordSchema) : ℕ :=
  s.columnOffset.toNat

/-- `GetColumnOffset`. -/
def getColumnOffset (s : RecordSchema) (index : ℕ) : Option ℕ := do
  guard (index < s.columnCount.toNat)
  return (s.column index).columnOffset.toNat

/-- `GetColumnSize`. -/
def getColumnSize (s : RecordSchema) (index : ℕ) : Option ℕ := do
  guard (index < s.columnCount.toNat)
  return (s.column index).columnSize.toNat

/-- `GetMetaColumnId`. -/
def getMetaColumnId (s : RecordSchema) : ℕ :=
  (s.columnCount - 1).toNat

end RecordSchema

/-! ## Records -/

/-- `Record`: the bytes behind `data_ptr_`. -/
structure Record where
  schema : RecordSchema
  data : Fin schema.getSchemaSize → BitVec 8

namespace Record

/-- `memcpy` to an offset of the record. -/
def copyIn (r : Record) (offset size : ℕ) (src : ℕ → BitVec 8) : Record :=
  { r with data := fun k =>
      if offset ≤ k ∧ k < offset + size then src (k - offset) else r.data k }

/-- `memcpy` from an offset of the record, to a buffer. -/
def copyOut (r : Record) (offset size : ℕ) (dst : ℕ → BitVec 8) : ℕ → BitVec 8 := fun k =>
  if h : k < size ∧ offset + k < r.schema.getSchemaSize then r.data ⟨offset + k, h.2⟩ else dst k

/-- `SetColumn`. -/
def setColumn (r : Record) (colId : ℕ) (src : ℕ → BitVec 8) : Option Record := do
  let offset ← r.schema.getColumnOffset colId
  let colSize ← r.schema.getColumnSize colId
  return r.copyIn offset colSize src

/-- `GetColumn`. -/
def getColumn (r : Record) (colId : ℕ) (dst : ℕ → BitVec 8) : Option (ℕ → BitVec 8) := do
  let offset ← r.schema.getColumnOffset colId
  let colSize ← r.schema.getColumnSize colId
  return r.copyOut offset colSize dst

/-- `GetVisible`; the buffer is filled before it is used. -/
def getVisible (r : Record) : Option Bool := do
  let metaCol ← r.getColumn r.schema.getMetaColumnId fun _ => 0
  return metaCol 0 ≠ 0

/-- `SetVisible`. -/
def setVisible (r : Record) (val : Bool) : Option Record := do
  let metaCol ← r.getColumn r.schema.getMetaColumnId fun _ => 0
  r.setColumn r.schema.getMetaColumnId (Function.update metaCol 0 (if val then 1 else 0))

/-- `Serialize`. -/
def serialize (r : Record) (addr : GAddr) (m : Memory) : Memory :=
  m.write (.bytes r.schema.getSchemaSize) addr r.data

/-- `Serialize` of one column. -/
def serializeColumn (r : Record) (addr : GAddr) (m : Memory) (colId : ℕ) : Option Memory := do
  let offset ← r.schema.getColumnOffset colId
  let colSize ← r.schema.getColumnSize colId
  return m.write (.bytes colSize) (GADD addr offset) fun k => r.copyOut offset colSize (fun _ => 0) k

/-- `Deserialize`, of a record with a schema. -/
def deserialize (schema : RecordSchema) (m : Memory) (addr : GAddr) : Record :=
  ⟨schema, m.read (.bytes schema.getSchemaSize) addr⟩

end Record

/-! ## Columns behind one another -/

namespace RecordSchema

variable {s : RecordSchema}

/-- Columns that have been placed from `off` on are there already. -/
theorem withOffsets_withOffsets (off : BitVec 64) (cs : List ColumnInfo) :
    withOffsets off (withOffsets off cs).1 = withOffsets off cs := by
  induction cs generalizing off with
  | nil => rfl
  | cons c cs ih => simp only [withOffsets, ih]

theorem withOffsets_last (off : BitVec 64) (cs : List ColumnInfo) :
    (withOffsets off cs).2.toNat =
      (off.toNat + (cs.map (·.columnSize.toNat)).sum) % 2 ^ 64 := by
  induction cs generalizing off with
  | nil => exact (Nat.mod_eq_of_lt off.isLt).symm
  | cons c cs ih =>
      simp only [withOffsets, List.map_cons, List.sum_cons, ih, BitVec.toNat_add]
      omega

/-- The columns from `off` on are apart, if their sizes do not wrap around. -/
theorem withOffsets_apart {off : BitVec 64} {cs : List ColumnInfo}
    (h : off.toNat + (cs.map (·.columnSize.toNat)).sum < 2 ^ 64) :
    (∀ c ∈ (withOffsets off cs).1, off.toNat ≤ c.columnOffset.toNat ∧
      c.columnOffset.toNat + c.columnSize.toNat ≤ (withOffsets off cs).2.toNat) ∧
      (withOffsets off cs).1.Pairwise fun c d =>
        c.columnOffset.toNat + c.columnSize.toNat ≤ d.columnOffset.toNat := by
  induction cs generalizing off with
  | nil => exact ⟨by rintro c ⟨⟩, .nil⟩
  | cons c cs ih =>
      have hlast := withOffsets_last off (c :: cs)
      rw [Nat.mod_eq_of_lt h, List.map_cons, List.sum_cons] at hlast
      rw [List.map_cons, List.sum_cons] at h
      have hoff : (off + c.columnSize).toNat = off.toNat + c.columnSize.toNat := by
        rw [BitVec.toNat_add, Nat.mod_eq_of_lt (by omega)]
      have hrest : (off + c.columnSize).toNat + (cs.map (·.columnSize.toNat)).sum < 2 ^ 64 := by
        omega
      obtain ⟨hin, hpair⟩ := ih hrest
      refine ⟨?_, .cons ?_ hpair⟩
      · intro d hd
        rcases List.mem_cons.mp hd with rfl | hd
        · refine ⟨le_rfl, ?_⟩
          show off.toNat + c.columnSize.toNat ≤ _
          omega
        · obtain ⟨hlo, hhi⟩ := hin d hd
          exact ⟨by omega, hhi⟩
      · intro d hd
        show off.toNat + c.columnSize.toNat ≤ _
        rw [← hoff]
        exact (hin d hd).1

/-- The sizes of the columns do not add up to more than `size_t` holds. -/
def Roomy (s : RecordSchema) : Prop :=
  (s.columns.map (·.columnSize.toNat)).sum ≤ s.getSchemaSize

/-- The columns have been placed one behind the other. -/
theorem Accepted.placed (h : s.Accepted) :
    ∃ off, withOffsets off s.columns = (s.columns, s.columnOffset) := by
  induction h with
  | new s tableId => exact ⟨0, rfl⟩
  | @insertColumns s s' columns _ h _ =>
      simp only [RecordSchema.insertColumns, Option.bind_eq_bind, Option.bind_eq_some_iff,
        Option.guard_eq_some', Option.pure_def, Option.some.injEq] at h
      obtain ⟨-, -, rfl⟩ := h
      exact ⟨s.columnOffset, withOffsets_withOffsets _ _⟩
  | setPrimaryColumns _ h ih =>
      simp only [RecordSchema.setPrimaryColumns, Option.bind_eq_bind, Option.bind_eq_some_iff,
        Option.pure_def, Option.some.injEq] at h
      obtain ⟨-, -, rfl⟩ := h
      exact ih
  | addSecondaryColumns _ h ih =>
      simp only [RecordSchema.addSecondaryColumns, Option.bind_eq_bind,
        Option.bind_eq_some_iff] at h
      obtain ⟨-, -, h⟩ := h
      split at h
      · cases h
        exact ih
      · cases h
  | setPartitionColumns _ h ih =>
      simp only [RecordSchema.setPartitionColumns, Option.bind_eq_bind, Option.bind_eq_some_iff,
        Option.pure_def, Option.some.injEq] at h
      obtain ⟨-, -, rfl⟩ := h
      exact ih

/-- Columns are inside the record, and apart from each other. -/
theorem Accepted.columns (h : s.Accepted) (hroom : s.Roomy) :
    (∀ c ∈ s.columns, c.columnOffset.toNat + c.columnSize.toNat ≤ s.getSchemaSize) ∧
      s.columns.Pairwise fun c d =>
        c.columnOffset.toNat + c.columnSize.toNat ≤ d.columnOffset.toNat := by
  obtain ⟨off, hplaced⟩ := h.placed
  have hlast := withOffsets_last off s.columns
  rw [hplaced] at hlast
  replace hlast : s.columnOffset.toNat = _ := hlast
  replace hroom : _ ≤ s.columnOffset.toNat := hroom
  have hlt : off.toNat + (s.columns.map (·.columnSize.toNat)).sum < 2 ^ 64 := by
    by_contra hge
    omega
  obtain ⟨hin, hpair⟩ := withOffsets_apart hlt
  rw [hplaced] at hin hpair
  exact ⟨fun c hc => (hin c hc).2, hpair⟩

theorem column_mem (h : s.Accepted) {i : ℕ} (hi : i < s.columnCount.toNat) :
    s.column i ∈ s.columns := by
  rw [h.count.1] at hi
  rw [column, List.getD_eq_getElem _ _ hi]
  exact List.getElem_mem hi

/-- Two columns do not overlap. -/
theorem columns_disjoint (h : s.Accepted) (hroom : s.Roomy) {i j : ℕ}
    (hi : i < s.columnCount.toNat) (hj : j < s.columnCount.toNat) (hne : i ≠ j) :
    (s.column i).columnOffset.toNat + (s.column i).columnSize.toNat
        ≤ (s.column j).columnOffset.toNat ∨
      (s.column j).columnOffset.toNat + (s.column j).columnSize.toNat
        ≤ (s.column i).columnOffset.toNat := by
  have hpair := (h.columns hroom).2
  rw [h.count.1] at hi hj
  rw [column, column, List.getD_eq_getElem _ _ hi, List.getD_eq_getElem _ _ hj]
  rcases Nat.lt_or_gt_of_ne hne with hlt | hgt
  · exact .inl (List.pairwise_iff_getElem.mp hpair i j hi hj hlt)
  · exact .inr (List.pairwise_iff_getElem.mp hpair j i hj hi hgt)

theorem getColumnOffset_eq {i : ℕ} (hi : i < s.columnCount.toNat) :
    s.getColumnOffset i = some (s.column i).columnOffset.toNat := by
  simp only [getColumnOffset, guard, hi, if_true, Option.pure_def, Option.bind_eq_bind,
    Option.bind_some]

theorem getColumnSize_eq {i : ℕ} (hi : i < s.columnCount.toNat) :
    s.getColumnSize i = some (s.column i).columnSize.toNat := by
  simp only [getColumnSize, guard, hi, if_true, Option.pure_def, Option.bind_eq_bind,
    Option.bind_some]

end RecordSchema

/-! ## Changing a column -/

namespace Record

variable {r : Record} {i j : ℕ} {src dst : ℕ → BitVec 8} {m : Memory} {addr : GAddr}

theorem setColumn_eq (hi : i < r.schema.columnCount.toNat) :
    r.setColumn i src = some (r.copyIn (r.schema.column i).columnOffset.toNat
      (r.schema.column i).columnSize.toNat src) := by
  simp only [setColumn, RecordSchema.getColumnOffset_eq hi, RecordSchema.getColumnSize_eq hi,
    Option.pure_def, Option.bind_eq_bind, Option.bind_some]

theorem getColumn_eq (hi : i < r.schema.columnCount.toNat) :
    r.getColumn i dst = some (r.copyOut (r.schema.column i).columnOffset.toNat
      (r.schema.column i).columnSize.toNat dst) := by
  simp only [getColumn, RecordSchema.getColumnOffset_eq hi, RecordSchema.getColumnSize_eq hi,
    Option.pure_def, Option.bind_eq_bind, Option.bind_some]

theorem serializeColumn_eq (hi : i < r.schema.columnCount.toNat) :
    r.serializeColumn addr m i = some (m.write (.bytes (r.schema.column i).columnSize.toNat)
      (GADD addr (r.schema.column i).columnOffset.toNat)
      fun k => r.copyOut (r.schema.column i).columnOffset.toNat
        (r.schema.column i).columnSize.toNat (fun _ => 0) k) := by
  simp only [serializeColumn, RecordSchema.getColumnOffset_eq hi, RecordSchema.getColumnSize_eq hi,
    Option.pure_def, Option.bind_eq_bind, Option.bind_some]

/-- What was copied to a place of the record is read there. -/
theorem copyOut_copyIn {offset size : ℕ} (h : offset + size ≤ r.schema.getSchemaSize) :
    (r.copyIn offset size src).copyOut offset size dst =
      fun k => if k < size then src k else dst k := by
  funext k
  by_cases hk : k < size
  · have hin : k < size ∧ offset + k < (r.copyIn offset size src).schema.getSchemaSize :=
      ⟨hk, by show offset + k < r.schema.getSchemaSize; omega⟩
    have hplace : offset ≤ offset + k ∧ offset + k < offset + size := by omega
    rw [copyOut, dif_pos hin, if_pos hk]
    show (if _ then src (offset + k - offset) else _) = _
    rw [if_pos hplace, Nat.add_sub_cancel_left]
  · have hout : ¬ (k < size ∧ offset + k < (r.copyIn offset size src).schema.getSchemaSize) :=
      fun h => hk h.1
    rw [copyOut, dif_neg hout, if_neg hk]

/-- What was copied to another place is not read. -/
theorem copyOut_copyIn_of_disjoint {offset size offset' size' : ℕ}
    (h : offset' + size' ≤ offset ∨ offset + size ≤ offset') :
    (r.copyIn offset size src).copyOut offset' size' dst = r.copyOut offset' size' dst := by
  funext k
  by_cases hk : k < size' ∧ offset' + k < r.schema.getSchemaSize
  · have hplace : ¬ (offset ≤ offset' + k ∧ offset' + k < offset + size) := by omega
    have hin : k < size' ∧ offset' + k < (r.copyIn offset size src).schema.getSchemaSize := hk
    rw [copyOut, copyOut, dif_pos hin, dif_pos hk]
    exact if_neg hplace
  · have hout : ¬ (k < size' ∧
      offset' + k < (r.copyIn offset size src).schema.getSchemaSize) := hk
    rw [copyOut, copyOut, dif_neg hk, dif_neg hout]

/-- How far an address is from a part of a record, if it is `k` from the record. -/
theorem sub_GADD (addr : GAddr) {offset : ℕ} (h : offset < 2 ^ 31) (y : BitVec 64) :
    (y - (GADD addr offset).addr).toNat = if offset ≤ (y - addr.addr).toNat
      then (y - addr.addr).toNat - offset else 2 ^ 64 + (y - addr.addr).toNat - offset := by
  rw [GADD_eq addr h]
  simp only [BitVec.toNat_sub, BitVec.toNat_add, BitVec.toNat_ofNat]
  split <;> omega

/-- The bytes in memory of a record that is there. -/
theorem data_of_deserialize (h : deserialize r.schema m addr = r)
    (k : Fin r.schema.getSchemaSize) :
    m addr.nodeID (addr.addr + BitVec.ofNat 64 k) = r.data k := by
  cases r with
  | mk schema data =>
      rw [deserialize, mk.injEq] at h
      exact congrFun (eq_of_heq h.2) k

/-- To write the column that was changed is to write the record. -/
theorem write_column {offset size : ℕ} (h : offset + size ≤ r.schema.getSchemaSize)
    (hsmall : r.schema.getSchemaSize < 2 ^ 31) (hr : deserialize r.schema m addr = r) :
    m.write (.bytes size) (GADD addr offset) (fun k =>
        (r.copyIn offset size src).copyOut offset size (fun _ => 0) k) =
      (r.copyIn offset size src).serialize addr m := by
  funext n y
  have hsub := sub_GADD addr (show offset < 2 ^ 31 by omega) y
  rw [copyOut_copyIn h]
  by_cases hn : n = addr.nodeID
  · by_cases hk : (y - addr.addr).toNat < r.schema.getSchemaSize
    · have hrow : (r.copyIn offset size src).serialize addr m n y =
          (r.copyIn offset size src).data ⟨(y - addr.addr).toNat, hk⟩ := by
        rw [serialize, Memory.write, if_pos ⟨hn, hk⟩]
        exact dif_pos hk
      by_cases hin : offset ≤ (y - addr.addr).toNat ∧ (y - addr.addr).toNat < offset + size
      · -- a byte of the column
        rw [if_pos hin.1] at hsub
        have hlt : (y - (GADD addr offset).addr).toNat < size := by omega
        rw [hrow, Memory.write, if_pos ⟨hn, hlt⟩]
        refine (dif_pos hlt).trans ?_
        show (if (y - (GADD addr offset).addr).toNat < size then _ else _) =
          if offset ≤ (y - addr.addr).toNat ∧ (y - addr.addr).toNat < offset + size then _ else _
        rw [if_pos hlt, if_pos hin]
        exact congrArg src hsub
      · -- a byte of another column
        have hge : ¬ (y - (GADD addr offset).addr).toNat < size := by
          rw [hsub]
          split <;> omega
        have hdata := data_of_deserialize hr ⟨(y - addr.addr).toNat, hk⟩
        rw [BitVec.ofNat_toNat, BitVec.setWidth_eq, BitVec.add_comm, BitVec.sub_add_cancel,
          ← hn] at hdata
        rw [hrow, Memory.write, if_neg (fun hw => hge hw.2), hdata]
        exact (if_neg hin).symm
    · have hge : ¬ (y - (GADD addr offset).addr).toNat < size := by
        rw [hsub]
        split <;> omega
      rw [serialize, Memory.write, Memory.write, if_neg (fun hw => hge hw.2),
        if_neg (fun hw => hk hw.2)]
  · rw [serialize, Memory.write, Memory.write, if_neg (fun hw => hn hw.1),
      if_neg (fun hw => hn hw.1)]

/-- A column is changed without the others: in the record, and in memory, where it is enough to
write the column.  What was written is the record that is read. -/
theorem record_columns (h : r.schema.Accepted) (hroom : r.schema.Roomy)
    (hsmall : r.schema.getSchemaSize < 2 ^ 31) (hi : i < r.schema.columnCount.toNat)
    (src : ℕ → BitVec 8) :
    ∃ r', r.setColumn i src = some r' ∧ r'.schema = r.schema ∧
      (∀ j < r.schema.columnCount.toNat, ∀ dst, r'.getColumn j dst =
        if j = i then
          some fun k => if k < (r.schema.column i).columnSize.toNat then src k else dst k
        else r.getColumn j dst) ∧
      ∀ m addr, deserialize r.schema m addr = r →
        r'.serializeColumn addr m i = some (r'.serialize addr m) ∧
          deserialize r.schema (r'.serialize addr m) addr = r' := by
  have hinside := (h.columns hroom).1 _ (RecordSchema.column_mem h hi)
  let r' := r.copyIn (r.schema.column i).columnOffset.toNat
    (r.schema.column i).columnSize.toNat src
  refine ⟨r', setColumn_eq hi, rfl, ?_, ?_⟩
  · intro j hj dst
    have hget : r'.getColumn j dst = _ := getColumn_eq hj
    split
    next heq =>
      subst heq
      rw [hget]
      exact congrArg some (copyOut_copyIn hinside)
    next hne =>
      rw [hget, getColumn_eq hj]
      exact congrArg some
        (copyOut_copyIn_of_disjoint (RecordSchema.columns_disjoint h hroom hj hi hne))
  · intro m addr hr
    refine ⟨?_, ?_⟩
    · have hcol : r'.serializeColumn addr m i = _ := serializeColumn_eq hi
      rw [hcol]
      exact congrArg some (write_column hinside hsmall hr)
    · have hread := Memory.read_write (m := m) (a := addr) (l := .bytes r.schema.getSchemaSize)
        (le_of_lt (hsmall.trans (by decide))) r'.data
      exact congrArg (mk r.schema) hread

end Record

/-- A table with a column `INT`, and `META`. -/
def RecordSchema.intAndMeta : RecordSchema :=
  ⟨3, 2, 5, fun _ => 0, 0, fun _ _ => 0, fun _ => 0, 0, fun _ => 0, 0,
    [⟨fun _ => 97, 0, 4, 0⟩, ⟨fun _ => 98, 8, 1, 4⟩]⟩

theorem RecordSchema.intAndMeta_accepted : intAndMeta.Accepted :=
  @Accepted.insertColumns _ _ [⟨fun _ => 97, 0, 4, 0⟩, ⟨fun _ => 98, 8, 1, 0⟩]
    (.new ⟨3, 0, 0, fun _ => 0, 0, fun _ _ => 0, fun _ => 0, 0, fun _ => 0, 0, []⟩ 3) rfl

/-- The `INT` of a row is changed where the row is. -/
theorem Record.record_columns_int : ∃ r' : Record,
    Record.setColumn ⟨.intAndMeta, fun _ => 7⟩ 0 (fun _ => 9) = some r' ∧
      r'.getColumn 1 (fun _ => 0) = Record.getColumn ⟨.intAndMeta, fun _ => 7⟩ 1 (fun _ => 0) ∧
      r'.serializeColumn ⟨4096, 1, 0⟩ (fun _ _ => 7) 0 =
        some (r'.serialize ⟨4096, 1, 0⟩ fun _ _ => 7) := by
  obtain ⟨r', hset, -, hget, hmem⟩ := record_columns (r := ⟨.intAndMeta, fun _ => 7⟩) (i := 0)
    RecordSchema.intAndMeta_accepted (by unfold RecordSchema.Roomy; decide) (by decide) (by decide)
    fun _ => 9
  exact ⟨r', hset, hget 1 (by decide) _, (hmem _ _ rfl).1⟩

end Database

end Ting
