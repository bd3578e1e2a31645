/-
# `Ting.Database.Catalogue` — the tables of a database, in global memory

The first node of a cluster registers the tables and writes what it knows about them into global
memory, and the others read it from there: a storage manager has tables, and a table has a schema
and an index, which has an array of buckets.  Each component writes its fields one by one, and
reserves as many bytes as it says it takes.

`Serialize` is the list of its calls of `Write`.
-/
import Ting.Database.GAddrArray
import Mathlib.Data.List.GetD

namespace Ting

namespace Database

/-- `sizeof(size_t)`, which is `sizeof(uint64_t)`. -/
def sizeT : ℕ := 8

/-! ## Arrays -/

namespace GAddrArray

def layerSizes : Layout (Fin 4 → BitVec 64) := .array 4 uint64

def serialize (a : GAddrArray) (addr : GAddr) : List Cell :=
  [⟨gaddr, GADD addr 0, a.rootAddr⟩,
    ⟨uint64, GADD addr pointerSize, a.arraySize⟩,
    ⟨uint64, GADD addr (pointerSize + sizeT), a.elementSize⟩,
    ⟨layerSizes, GADD addr (pointerSize + sizeT + sizeT), a.layerSize⟩,
    ⟨uint64, GADD addr (pointerSize + sizeT + sizeT + sizeT * 4), a.layerNum⟩]

def deserialize (m : Memory) (addr : GAddr) : GAddrArray where
  rootAddr := m.read gaddr (GADD addr 0)
  arraySize := m.read uint64 (GADD addr pointerSize)
  elementSize := m.read uint64 (GADD addr (pointerSize + sizeT))
  layerSize := m.read layerSizes (GADD addr (pointerSize + sizeT + sizeT))
  layerNum := m.read uint64 (GADD addr (pointerSize + sizeT + sizeT + sizeT * 4))

def getSerializeSize : ℕ :=
  pointerSize + sizeT * 5 + sizeT * 2

end GAddrArray

/-! ## Indexes -/

structure HashIndex where
  buckets : GAddrArray
  bucketsCount : BitVec 64
  recordCount : BitVec 64

namespace HashIndex

def serialize (h : HashIndex) (addr : GAddr) : List Cell :=
  h.buckets.serialize addr ++
    [⟨uint64, GADD addr GAddrArray.getSerializeSize, h.bucketsCount⟩,
      ⟨uint64, GADD addr (GAddrArray.getSerializeSize + sizeT), h.recordCount⟩]

def deserialize (m : Memory) (addr : GAddr) : HashIndex where
  buckets := GAddrArray.deserialize m addr
  bucketsCount := m.read uint64 (GADD addr GAddrArray.getSerializeSize)
  recordCount := m.read uint64 (GADD addr (GAddrArray.getSerializeSize + sizeT))

def getSerializeSize : ℕ :=
  GAddrArray.getSerializeSize + sizeT * 2

end HashIndex

/-! ## Schemas -/

structure ColumnInfo where
  columnName : Fin 16 → BitVec 8
  columnType : BitVec 64
  columnSize : BitVec 64
  columnOffset : BitVec 64

namespace ColumnInfo

def layout : Layout ColumnInfo :=
  ((Layout.array 16 (.word 1)).seq (uint64.seq (uint64.seq uint64))).map
    (fun x => ⟨x.1, x.2.1, x.2.2.1, x.2.2.2⟩)
    (fun c => (c.columnName, c.columnType, c.columnSize, c.columnOffset)) fun _ => rfl

theorem size_layout : layout.size = 40 := rfl

end ColumnInfo

/-- `kMaxColumnNum`. -/
def kMaxColumnNum : ℕ := 32

/-- Ids of columns. -/
abbrev ColumnIds := Fin 5 → BitVec 64

structure RecordSchema where
  tableId : BitVec 64
  columnCount : BitVec 64
  columnOffset : BitVec 64
  primaryColumnIds : ColumnIds
  primaryColumnNum : BitVec 64
  secondaryColumnIds : Fin 3 → ColumnIds
  secondaryColumnNum : Fin 3 → BitVec 64
  secondaryIndexNum : BitVec 64
  partitionColumnIds : ColumnIds
  partitionColumnNum : BitVec 64
  columns : List ColumnInfo

namespace RecordSchema

/-- The constructor; the arrays are not initialised and have what `s` has. -/
def new (s : RecordSchema) (tableId : BitVec 64) : RecordSchema :=
  { s with
    tableId := tableId
    columnCount := 0
    columnOffset := 0
    primaryColumnNum := 0
    secondaryIndexNum := 0
    partitionColumnNum := 0
    columns := [] }

/-- The columns with their offsets, and the offset after the last. -/
def withOffsets : BitVec 64 → List ColumnInfo → List ColumnInfo × BitVec 64
  | off, [] => ([], off)
  | off, c :: cs =>
    let (cs, last) := withOffsets (off + c.columnSize) cs
    ({ c with columnOffset := off } :: cs, last)

/-- `InsertColumns`. -/
def insertColumns (s : RecordSchema) (columns : List ColumnInfo) : Option RecordSchema := do
  guard (columns.length ≤ kMaxColumnNum)
  let (columns, columnOffset) := withOffsets s.columnOffset columns
  return { s with columnCount := .ofNat 64 columns.length, columns, columnOffset }

/-- `memcpy` of the first `num` ids. -/
def copyIds (ids : ColumnIds) (columnIds : ℕ → BitVec 64) (num : ℕ) : ColumnIds := fun i =>
  if i < num then columnIds i else ids i

/-- `SetPrimaryColumns`. -/
def setPrimaryColumns (s : RecordSchema) (columnIds : ℕ → BitVec 64) (columnNum : BitVec 64) :
    Option RecordSchema := do
  guard (columnNum.toNat ≤ 5)
  return { s with
    primaryColumnNum := columnNum
    primaryColumnIds := copyIds s.primaryColumnIds columnIds columnNum.toNat }

/-- `AddSecondaryColumns`; a fourth index is written past the arrays before the assertion about it,
so there is no result. -/
def addSecondaryColumns (s : RecordSchema) (columnIds : ℕ → BitVec 64) (columnNum : BitVec 64) :
    Option RecordSchema := do
  guard (columnNum.toNat ≤ 5)
  if h : s.secondaryIndexNum.toNat < 3 then
    return { s with
      secondaryColumnNum := Function.update s.secondaryColumnNum ⟨_, h⟩ columnNum
      secondaryColumnIds := Function.update s.secondaryColumnIds ⟨_, h⟩
        (copyIds (s.secondaryColumnIds ⟨_, h⟩) columnIds columnNum.toNat)
      secondaryIndexNum := s.secondaryIndexNum + 1 }
  else none

/-- `SetPartitionColumns`. -/
def setPartitionColumns (s : RecordSchema) (columnIds : ℕ → BitVec 64) (columnNum : BitVec 64) :
    Option RecordSchema := do
  guard (columnNum.toNat < 5)
  return { s with
    partitionColumnNum := columnNum
    partitionColumnIds := copyIds s.partitionColumnIds columnIds columnNum.toNat }

/-- What the calls make of a schema, if no assertion fails. -/
inductive Accepted : RecordSchema → Prop
  | new (s : RecordSchema) (tableId : BitVec 64) : Accepted (s.new tableId)
  | insertColumns {s s' : RecordSchema} {columns : List ColumnInfo} (hs : Accepted s)
      (h : s.insertColumns columns = some s') : Accepted s'
  | setPrimaryColumns {s s' : RecordSchema} {ids : ℕ → BitVec 64} {num : BitVec 64}
      (hs : Accepted s) (h : s.setPrimaryColumns ids num = some s') : Accepted s'
  | addSecondaryColumns {s s' : RecordSchema} {ids : ℕ → BitVec 64} {num : BitVec 64}
      (hs : Accepted s) (h : s.addSecondaryColumns ids num = some s') : Accepted s'
  | setPartitionColumns {s s' : RecordSchema} {ids : ℕ → BitVec 64} {num : BitVec 64}
      (hs : Accepted s) (h : s.setPartitionColumns ids num = some s') : Accepted s'

def columnIds : Layout ColumnIds := .array 5 uint64

def threeSizes : Layout (Fin 3 → BitVec 64) := .array 3 uint64

/-- `columns_`, of `n` columns. -/
def columnArray (n : ℕ) : Layout (Fin n → ColumnInfo) := .array n ColumnInfo.layout

/-- `columns_[i]`. -/
def column (s : RecordSchema) (i : ℕ) : ColumnInfo :=
  s.columns.getD i ⟨fun _ => 0, 0, 0, 0⟩

/-- The offset behind the ids of the primary columns. -/
def primaryEnd : ℕ := sizeT + sizeT + sizeT + sizeT * 5

/-- The offset behind the ids of the secondary columns, which a loop writes. -/
def secondaryEnd : ℕ := primaryEnd + sizeT + sizeT * 5 + sizeT * 5 + sizeT * 5

def serialize (s : RecordSchema) (addr : GAddr) : List Cell :=
  [⟨uint64, GADD addr 0, s.tableId⟩,
    ⟨uint64, GADD addr sizeT, s.columnCount⟩,
    ⟨uint64, GADD addr (sizeT + sizeT), s.columnOffset⟩,
    ⟨columnIds, GADD addr (sizeT + sizeT + sizeT), s.primaryColumnIds⟩,
    ⟨uint64, GADD addr primaryEnd, s.primaryColumnNum⟩,
    ⟨columnIds, GADD addr (primaryEnd + sizeT), s.secondaryColumnIds 0⟩,
    ⟨columnIds, GADD addr (primaryEnd + sizeT + sizeT * 5), s.secondaryColumnIds 1⟩,
    ⟨columnIds, GADD addr (primaryEnd + sizeT + sizeT * 5 + sizeT * 5), s.secondaryColumnIds 2⟩,
    ⟨threeSizes, GADD addr secondaryEnd, s.secondaryColumnNum⟩,
    ⟨uint64, GADD addr (secondaryEnd + sizeT * 3), s.secondaryIndexNum⟩,
    ⟨columnIds, GADD addr (secondaryEnd + sizeT * 3 + sizeT), s.partitionColumnIds⟩,
    ⟨uint64, GADD addr (secondaryEnd + sizeT * 3 + sizeT + sizeT * 5), s.partitionColumnNum⟩,
    ⟨columnArray s.columnCount.toNat,
      GADD addr (secondaryEnd + sizeT * 3 + sizeT + sizeT * 5 + sizeT), fun i => s.column i⟩]

def deserialize (m : Memory) (addr : GAddr) : RecordSchema :=
  let columnCount := m.read uint64 (GADD addr sizeT)
  { tableId := m.read uint64 (GADD addr 0)
    columnCount
    columnOffset := m.read uint64 (GADD addr (sizeT + sizeT))
    primaryColumnIds := m.read columnIds (GADD addr (sizeT + sizeT + sizeT))
    primaryColumnNum := m.read uint64 (GADD addr primaryEnd)
    secondaryColumnIds := fun i =>
      m.read columnIds (GADD addr (primaryEnd + sizeT + sizeT * 5 * i))
    secondaryColumnNum := m.read threeSizes (GADD addr secondaryEnd)
    secondaryIndexNum := m.read uint64 (GADD addr (secondaryEnd + sizeT * 3))
    partitionColumnIds := m.read columnIds (GADD addr (secondaryEnd + sizeT * 3 + sizeT))
    partitionColumnNum :=
      m.read uint64 (GADD addr (secondaryEnd + sizeT * 3 + sizeT + sizeT * 5))
    columns := List.ofFn (m.read (columnArray columnCount.toNat)
      (GADD addr (secondaryEnd + sizeT * 3 + sizeT + sizeT * 5 + sizeT))) }

def getSerializeSize : ℕ :=
  sizeT * 3 + (sizeT * 5 + sizeT) + (sizeT * 3 * 5 + sizeT * 3 + sizeT) + (sizeT * 5 + sizeT) +
    40 * kMaxColumnNum

end RecordSchema

/-! ## Tables -/

structure Table where
  tableId : BitVec 64
  secondaryCount : BitVec 64
  schema : RecordSchema
  primaryIndex : HashIndex

namespace Table

/-- `Init`, with the index that `HashIndex::Init` and the insertions leave. -/
def init (tableId : BitVec 64) (schema : RecordSchema) (primaryIndex : HashIndex) : Table :=
  ⟨tableId, 0, schema, primaryIndex⟩

def serialize (t : Table) (addr : GAddr) : List Cell :=
  let curAddr := GADD addr (sizeT + sizeT)
  [⟨uint64, GADD addr 0, t.tableId⟩, ⟨uint64, GADD addr sizeT, t.secondaryCount⟩] ++
    t.schema.serialize curAddr ++
    t.primaryIndex.serialize (GADD curAddr RecordSchema.getSerializeSize)

def deserialize (m : Memory) (addr : GAddr) : Table :=
  let curAddr := GADD addr (sizeT + sizeT)
  { tableId := m.read uint64 (GADD addr 0)
    secondaryCount := m.read uint64 (GADD addr sizeT)
    schema := RecordSchema.deserialize m curAddr
    primaryIndex := HashIndex.deserialize m (GADD curAddr RecordSchema.getSerializeSize) }

def getSerializeSize : ℕ :=
  sizeT * 2 + RecordSchema.getSerializeSize + HashIndex.getSerializeSize

end Table

/-! ## The storage manager -/

/-- `kMaxTableNum`. -/
def kMaxTableNum : ℕ := 16

structure StorageManager where
  tableCount : BitVec 64
  tables : List Table

namespace StorageManager

/-- `RegisterTables`; each schema comes with the index of its table. -/
def registerTables (schemas : List (RecordSchema × HashIndex)) : Option StorageManager := do
  guard (schemas.length < kMaxTableNum)
  return ⟨.ofNat 64 schemas.length,
    schemas.mapIdx fun i s => Table.init (.ofNat 64 i) s.1 s.2⟩

/-- The loop of `Serialize`. -/
def serializeTables (curAddr : GAddr) : List Table → List Cell
  | [] => []
  | t :: ts => t.serialize curAddr ++ serializeTables (GADD curAddr Table.getSerializeSize) ts

def serialize (s : StorageManager) (addr : GAddr) : List Cell :=
  ⟨uint64, addr, s.tableCount⟩ :: serializeTables (GADD addr sizeT) s.tables

/-- The loop of `Deserialize`. -/
def deserializeTables (m : Memory) (curAddr : GAddr) : ℕ → List Table
  | 0 => []
  | n + 1 =>
    Table.deserialize m curAddr :: deserializeTables m (GADD curAddr Table.getSerializeSize) n

def deserialize (m : Memory) (addr : GAddr) : StorageManager :=
  let tableCount := m.read uint64 addr
  ⟨tableCount, deserializeTables m (GADD addr sizeT) tableCount.toNat⟩

def getSerializeSize : ℕ :=
  sizeT + kMaxTableNum * Table.getSerializeSize

end StorageManager

/-! ## Round trips -/

section RoundTrip

variable {m : Memory} {addr : GAddr}

theorem GAddrArray.laid (a : GAddrArray) (addr : GAddr) :
    Laid addr 0 GAddrArray.getSerializeSize (a.serialize addr) :=
  .cons le_rfl rfl (.cons le_rfl rfl (.cons le_rfl rfl (.cons le_rfl rfl (.cons le_rfl rfl
    (.nil le_rfl)))))

theorem GAddrArray.deserialize_eq {a : GAddrArray} (h : ∀ c ∈ a.serialize addr, c.Held m) :
    GAddrArray.deserialize m addr = a := by
  simp only [serialize, List.forall_mem_cons, Cell.Held] at h
  obtain ⟨hroot, harray, helement, hlayers, hnum, -⟩ := h
  simp only [deserialize, hroot, harray, helement, hlayers, hnum]

theorem HashIndex.laid (h : HashIndex) (addr : GAddr) :
    Laid addr 0 HashIndex.getSerializeSize (h.serialize addr) :=
  (h.buckets.laid addr).append (.cons le_rfl rfl (.cons le_rfl rfl (.nil le_rfl)))

theorem HashIndex.deserialize_eq {i : HashIndex} (h : ∀ c ∈ i.serialize addr, c.Held m) :
    HashIndex.deserialize m addr = i := by
  obtain ⟨hbuckets, h⟩ := List.forall_mem_append.mp h
  simp only [List.forall_mem_cons, Cell.Held] at h
  obtain ⟨hcount, hrecords, -⟩ := h
  simp only [deserialize, GAddrArray.deserialize_eq hbuckets, hcount, hrecords]

namespace RecordSchema

variable {s : RecordSchema}

theorem withOffsets_length (off : BitVec 64) (cs : List ColumnInfo) :
    (withOffsets off cs).1.length = cs.length := by
  induction cs generalizing off with
  | nil => rfl
  | cons c cs ih => simp only [withOffsets, List.length_cons, ih]

/-- The count is that of the columns, and there is room for them. -/
theorem Accepted.count (h : s.Accepted) :
    s.columnCount.toNat = s.columns.length ∧ s.columns.length ≤ kMaxColumnNum := by
  induction h with
  | new s tableId => exact ⟨rfl, Nat.zero_le _⟩
  | @insertColumns s s' columns _ h _ =>
    simp only [RecordSchema.insertColumns, Option.bind_eq_bind, Option.bind_eq_some_iff,
      Option.guard_eq_some', Option.pure_def, Option.some.injEq] at h
    obtain ⟨-, hlength, rfl⟩ := h
    have hmax : columns.length < 2 ^ 64 := hlength.trans_lt (by decide)
    simp only [withOffsets_length, BitVec.toNat_ofNat, Nat.mod_eq_of_lt hmax, true_and]
    exact hlength
  | setPrimaryColumns _ h ih =>
    simp only [RecordSchema.setPrimaryColumns, Option.bind_eq_bind, Option.bind_eq_some_iff,
      Option.pure_def, Option.some.injEq] at h
    obtain ⟨-, -, rfl⟩ := h
    exact ih
  | addSecondaryColumns _ h ih =>
    simp only [RecordSchema.addSecondaryColumns, Option.bind_eq_bind, Option.bind_eq_some_iff] at h
    obtain ⟨-, -, h⟩ := h
    split at h
    · cases h
      exact ih
    · cases h
  | setPartitionColumns _ h ih =>
    simp only [RecordSchema.setPartitionColumns, Option.bind_eq_bind, Option.bind_eq_some_iff,
      Option.pure_def, Option.some.injEq] at h
    obtain ⟨-, -, rfl⟩ := h
    exact ih

theorem ofFn_column (n : ℕ) (h : n = s.columns.length) :
    (List.ofFn fun i : Fin n => s.column i) = s.columns := by
  subst h
  refine List.ext_getElem (List.length_ofFn) fun i _ hi => ?_
  rw [List.getElem_ofFn]
  exact List.getD_eq_getElem _ _ hi

theorem laid (h : s.Accepted) (addr : GAddr) :
    Laid addr 0 getSerializeSize (s.serialize addr) := by
  obtain ⟨hcount, hmax⟩ := h.count
  refine .cons le_rfl rfl (.cons le_rfl rfl (.cons le_rfl rfl (.cons le_rfl rfl (.cons le_rfl rfl
    (.cons le_rfl rfl (.cons le_rfl rfl (.cons le_rfl rfl (.cons le_rfl rfl (.cons le_rfl rfl
    (.cons le_rfl rfl (.cons le_rfl rfl (.cons le_rfl rfl (.nil ?_)))))))))))))
  rw [columnArray, Layout.size_array, ColumnInfo.size_layout, hcount]
  exact Nat.add_le_add_left (Nat.mul_le_mul_right 40 hmax) 272

theorem deserialize_eq (hs : s.Accepted) (h : ∀ c ∈ s.serialize addr, c.Held m) :
    deserialize m addr = s := by
  simp only [serialize, List.forall_mem_cons, Cell.Held] at h
  obtain ⟨hid, hcount, hoffset, hprimary, hprimaryNum, h0, h1, h2, hsecondaryNum, hnum, hpartition,
    hpartitionNum, hcolumns, -⟩ := h
  have hsecondary : (fun i : Fin 3 =>
      m.read columnIds (GADD addr (primaryEnd + sizeT + sizeT * 5 * i))) = s.secondaryColumnIds := by
    funext i
    match i with
    | 0 => exact h0
    | 1 => exact h1
    | 2 => exact h2
  have hread : List.ofFn (m.read (columnArray (m.read uint64 (GADD addr sizeT)).toNat)
      (GADD addr (secondaryEnd + sizeT * 3 + sizeT + sizeT * 5 + sizeT))) = s.columns := by
    rw [hcount, hcolumns]
    exact ofFn_column _ hs.count.1
  rw [deserialize, hread]
  simp only [hid, hcount, hoffset, hprimary, hprimaryNum, hsecondary, hsecondaryNum, hnum,
    hpartition, hpartitionNum]

end RecordSchema

namespace Table

variable {t : Table}

theorem laid (h : t.schema.Accepted) (addr : GAddr) :
    Laid addr 0 getSerializeSize (t.serialize addr) := by
  have hfields : Laid addr 0 (sizeT * 2)
      [⟨uint64, GADD addr 0, t.tableId⟩, ⟨uint64, GADD addr sizeT, t.secondaryCount⟩] :=
    .cons le_rfl rfl (.cons le_rfl rfl (.nil le_rfl))
  have hschema := (RecordSchema.laid h (GADD addr (sizeT * 2))).shift (by decide)
  have hindex := (t.primaryIndex.laid
    (GADD addr (sizeT * 2 + RecordSchema.getSerializeSize))).shift (by decide)
  rw [← GADD_GADD addr (by decide)] at hindex
  exact (hfields.append hschema).append hindex

theorem deserialize_eq (ht : t.schema.Accepted) (h : ∀ c ∈ t.serialize addr, c.Held m) :
    deserialize m addr = t := by
  simp only [serialize, List.append_assoc, List.forall_mem_append, List.forall_mem_cons,
    Cell.Held] at h
  obtain ⟨⟨hid, hcount, -⟩, hschema, hindex⟩ := h
  simp only [deserialize, hid, hcount, RecordSchema.deserialize_eq ht hschema,
    HashIndex.deserialize_eq hindex]

end Table

namespace StorageManager

variable {sm : StorageManager} {tables : List Table}

/-- The tables have places of the same size. -/
theorem laid_tables (h : ∀ t ∈ tables, t.schema.Accepted) {off : ℕ}
    (hoff : off + tables.length * Table.getSerializeSize < 2 ^ 31) (addr : GAddr) :
    Laid addr off (off + tables.length * Table.getSerializeSize)
      (serializeTables (GADD addr off) tables) := by
  induction tables generalizing off with
  | nil => exact .nil (Nat.le_add_right _ _)
  | cons t ts ih =>
    obtain ⟨ht, hts⟩ := List.forall_mem_cons.mp h
    rw [List.length_cons, Nat.succ_mul, Nat.add_comm (ts.length * _), ← Nat.add_assoc] at hoff ⊢
    have hfirst := (Table.laid ht (GADD addr off)).shift (by omega)
    rw [serializeTables, GADD_GADD addr (by omega)]
    exact hfirst.append (ih hts hoff)

theorem deserializeTables_eq (h : ∀ t ∈ tables, t.schema.Accepted) {addr : GAddr}
    (hheld : ∀ c ∈ serializeTables addr tables, c.Held m) :
    deserializeTables m addr tables.length = tables := by
  induction tables generalizing addr with
  | nil => rfl
  | cons t ts ih =>
    obtain ⟨ht, hts⟩ := List.forall_mem_cons.mp h
    obtain ⟨hfirst, hrest⟩ := List.forall_mem_append.mp hheld
    rw [List.length_cons, deserializeTables, Table.deserialize_eq ht hfirst, ih hts hrest]

/-- What registering the tables leaves. -/
structure Registered (sm : StorageManager) : Prop where
  count : sm.tableCount.toNat = sm.tables.length
  room : sm.tables.length < kMaxTableNum
  accepted : ∀ t ∈ sm.tables, t.schema.Accepted

theorem registered {schemas : List (RecordSchema × HashIndex)}
    (h : registerTables schemas = some sm) (hs : ∀ s ∈ schemas, s.1.Accepted) : sm.Registered := by
  simp only [registerTables, Option.bind_eq_bind, Option.bind_eq_some_iff,
      Option.guard_eq_some', Option.pure_def, Option.some.injEq] at h
  obtain ⟨-, hroom, rfl⟩ := h
  have hmax : schemas.length < 2 ^ 64 := hroom.trans (by decide)
  refine ⟨?_, ?_, fun t ht => ?_⟩
  · rw [BitVec.toNat_ofNat, Nat.mod_eq_of_lt hmax, List.length_mapIdx]
  · rw [List.length_mapIdx]
    exact hroom
  · obtain ⟨i, hi, rfl⟩ := List.mem_mapIdx.mp ht
    exact hs _ (List.getElem_mem hi)

theorem Registered.laid (h : sm.Registered) (addr : GAddr) :
    Laid addr 0 getSerializeSize (sm.serialize addr) := by
  have hsize : sm.tables.length * Table.getSerializeSize
      ≤ kMaxTableNum * Table.getSerializeSize := Nat.mul_le_mul_right _ h.room.le
  have hmax : sizeT + kMaxTableNum * Table.getSerializeSize < 2 ^ 31 := by decide
  have htables := laid_tables h.accepted ((Nat.add_le_add_left hsize sizeT).trans_lt hmax) addr
  exact .cons le_rfl (GADD_zero addr).symm (htables.weaken (Nat.add_le_add_left hsize _))

theorem Registered.deserialize_eq (h : sm.Registered)
    (hheld : ∀ c ∈ sm.serialize addr, c.Held m) : deserialize m addr = sm := by
  obtain ⟨hcount, htables⟩ := List.forall_mem_cons.mp hheld
  rw [Cell.Held] at hcount
  rw [deserialize, hcount]
  dsimp only
  rw [h.count, deserializeTables_eq h.accepted htables]

/-- What is written is read back, it stays in its region, and its parts are apart. -/
theorem round_trip {schemas : List (RecordSchema × HashIndex)}
    (h : registerTables schemas = some sm) (hs : ∀ s ∈ schemas, s.1.Accepted) (m : Memory)
    (addr : GAddr) :
    deserialize (Cell.putAll m (sm.serialize addr)) addr = sm ∧
      (∀ c ∈ sm.serialize addr, c.bytes ⊆ addr.bytes getSerializeSize) ∧
      (∀ p ∉ addr.bytes getSerializeSize,
        Cell.putAll m (sm.serialize addr) p.1 p.2 = m p.1 p.2) ∧
      (sm.serialize addr).Pairwise fun c d => Disjoint c.bytes d.bytes := by
  have hmax : getSerializeSize < 2 ^ 31 := by decide
  have hlaid := (registered h hs).laid addr
  refine ⟨(registered h hs).deserialize_eq fun c => hlaid.held hmax m, fun c =>
    hlaid.bytes_subset hmax, fun p hp => ?_, hlaid.pairwise hmax⟩
  exact Cell.putAll_of_notMem _ m fun c hc hpc => hp (hlaid.bytes_subset hmax hc hpc)

/-- A table with two columns, the first of which is its key. -/
theorem round_trip_two_columns : ∃ (s : RecordSchema) (sm : StorageManager),
    s.columns.length = 2 ∧ s.primaryColumnNum = 1 ∧
      registerTables [(s, ⟨⟨.null, 1000007, 10, fun _ => 1, 2⟩, 1000007, 0⟩)] = some sm ∧
      deserialize (Cell.putAll (fun _ _ => 7) (sm.serialize ⟨4096, 1, 0⟩)) ⟨4096, 1, 0⟩ = sm := by
  let s₀ : RecordSchema := ⟨0, 0, 0, fun _ => 0, 0, fun _ _ => 0, fun _ => 0, 0, fun _ => 0, 0, []⟩
  have hcolumns := @RecordSchema.Accepted.insertColumns _ _
    [⟨fun _ => 97, 4, 8, 0⟩, ⟨fun _ => 98, 7, 16, 0⟩] (.new s₀ 3) rfl
  have hs := @RecordSchema.Accepted.setPrimaryColumns _ _ (fun _ => 0) 1 hcolumns rfl
  exact ⟨_, _, rfl, rfl, rfl, (round_trip rfl (List.forall_mem_singleton.mpr hs) _ _).1⟩

end StorageManager

end RoundTrip

end Database

end Ting
