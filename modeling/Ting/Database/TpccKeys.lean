/-
# `Ting.Database.TpccKeys` — the keys of the TPC-C tables

Every table has its records under keys of 64 bits: the warehouse is in the upper six bits, the
table in the four below them, and the other identifiers are in the rest.  `FillScaleParams` sets
the ranges of the identifiers from the command line and the configuration of the cluster.

Keys are read back field by field, so they are unique where every field has room.
-/
import Ting.Lib.BitRange
import Ting.Lib.Rounding

namespace Ting

namespace Tpcc

open BitRange

/-! ## Numbers of C++ -/

/-- `double`; of an infinite one the sign is never looked at. -/
inductive Double
  | finite (q : ℚ)
  | infinite
  | nan

/-- A result of type `int`, when it fits; the code does not define the others. -/
def int (n : ℤ) : Option ℤ :=
  if -2 ^ 31 ≤ n ∧ n < 2 ^ 31 then some n else none

/-- A `size_t` assigned to an `int`. -/
def intOfSize (n : ℕ) : ℤ :=
  (BitVec.ofNat 32 n).toInt

namespace Double

/-- Rounded to the digits of a `double`, away from the ends of its range. -/
def ofRat (q : ℚ) : ℚ :=
  if q < 0 then -Rounding.roundTo 53 (-q) else Rounding.roundTo 53 q

/-- `n / x`. -/
def quotient (n : ℕ) : Double → Double
  | finite q => if q = 0 then infinite else finite (ofRat (n / q))
  | infinite => finite 0
  | nan => nan

/-- `static_cast<int>`, towards zero. -/
def toInt : Double → Option ℤ
  | finite q => int (if q < 0 then ⌈q⌉ else ⌊q⌋)
  | infinite => none
  | nan => none

end Double

/-! ## Scale parameters -/

/-- `ServerInfo`. -/
structure ServerInfo where
  addr : String
  portNo : ℤ
  deriving DecidableEq

/-- `ClusterConfig`, after `ReadConfigFile`. -/
structure ClusterConfig where
  serverInfo : List ServerInfo
  myInfo : ServerInfo

namespace ClusterConfig

def getPartitionNum (c : ClusterConfig) : ℕ :=
  c.serverInfo.length

def getMyPartitionId (c : ClusterConfig) : ℕ :=
  (c.serverInfo.findIdx? (· = c.myInfo)).getD (c.serverInfo.length + 1)

end ClusterConfig

structure ScaleParams where
  numWarehouses : ℤ
  startingWarehouse : ℤ
  endingWarehouse : ℤ
  partitionId : ℤ
  scaleFactor : Double
  numItems : ℤ
  numDistrictsPerWarehouse : ℤ
  numCustomersPerDistrict : ℤ
  numNewOrdersPerDistrict : ℤ

/-- `NUM_ITEMS`. -/
def numItems : ℕ := 100000

/-- `DISTRICTS_PER_WAREHOUSE`. -/
def districtsPerWarehouse : ℕ := 10

/-- `CUSTOMERS_PER_DISTRICT`. -/
def customersPerDistrict : ℕ := 3000

/-- `INITIAL_NEW_ORDERS_PER_DISTRICT`. -/
def initialNewOrdersPerDistrict : ℕ := 900

/-- `FillScaleParams`; `none` where an assertion fails or the result is not defined. -/
def fillScaleParams (scaleFactors : List Double) (config : ClusterConfig) : Option ScaleParams := do
  let [warehouses, scaleFactor] := scaleFactors | none
  let numWarehouses ← warehouses.toInt
  let partitionId := intOfSize config.getMyPartitionId
  let partitionNum := intOfSize config.getPartitionNum
  let sum ← int (numWarehouses + partitionNum)
  let sum ← int (sum - 1)
  guard (partitionNum ≠ 0)
  let numWhPerPar ← int (sum.tdiv partitionNum)
  let before ← int (numWhPerPar * partitionId)
  let startingWarehouse ← int (1 + before)
  let past ← int (startingWarehouse + numWhPerPar)
  let last ← int (past - 1)
  let endingWarehouse := if last > numWarehouses then numWarehouses else last
  guard (startingWarehouse ≤ endingWarehouse)
  let items ← (scaleFactor.quotient numItems).toInt
  let customers ← (scaleFactor.quotient customersPerDistrict).toInt
  let newOrders ← (scaleFactor.quotient initialNewOrdersPerDistrict).toInt
  return {
    numWarehouses, startingWarehouse, endingWarehouse, partitionId, scaleFactor
    numItems := items
    numDistrictsPerWarehouse := districtsPerWarehouse
    numCustomersPerDistrict := customers
    numNewOrdersPerDistrict := newOrders }

/-! ## Key functions -/

inductive TableType
  | item
  | stock
  | warehouse
  | district
  | districtNewOrder
  | newOrder
  | order
  | orderLine
  | customer
  | history
  deriving DecidableEq

/-- The value of the enumerator. -/
def TableType.id : TableType → ℕ
  | item => 0
  | stock => 1
  | warehouse => 2
  | district => 3
  | districtNewOrder => 4
  | newOrder => 5
  | order => 6
  | orderLine => 7
  | customer => 8
  | history => 9

def kWarehouseBits : ℕ := 58
def kTableIdLowBits : ℕ := 54
def kDistrictLowBits : ℕ := 32
def kOrderIdLowBits : ℕ := 4

abbrev IndexKey := BitVec 64

/-- What the key functions have in common; an identifier that a table does not have is zero. -/
def packed (w_id : ℤ) (table : TableType) (d_id o_id low : ℤ) : IndexKey :=
  BitVec.ofInt 64 w_id <<< kWarehouseBits ||| BitVec.ofNat 64 table.id <<< kTableIdLowBits |||
    BitVec.ofInt 64 d_id <<< kDistrictLowBits ||| BitVec.ofInt 64 o_id <<< kOrderIdLowBits |||
    BitVec.ofInt 64 low

section Keys

variable (P : ScaleParams)

def getItemPrimaryKey (i_id w_id : ℤ) : Option IndexKey := do
  guard (i_id ≥ 1 ∧ i_id ≤ P.numItems)
  return packed w_id .item 0 0 i_id

def getWarehousePrimaryKey (w_id : ℤ) : Option IndexKey := do
  guard (w_id ≥ 1 ∧ w_id ≤ P.numWarehouses)
  return packed w_id .warehouse 0 0 0

def getDistrictPrimaryKey (d_id d_w_id : ℤ) : Option IndexKey := do
  guard (d_id ≥ 1 ∧ d_id ≤ P.numDistrictsPerWarehouse ∧ d_w_id ≥ 1 ∧ d_w_id ≤ P.numWarehouses)
  return packed d_w_id .district d_id 0 0

def getCustomerPrimaryKey (c_id c_d_id c_w_id : ℤ) : Option IndexKey := do
  guard (c_id ≥ 1 ∧ c_id ≤ P.numCustomersPerDistrict)
  return packed c_w_id .customer c_d_id 0 c_id

def getOrderPrimaryKey (o_id o_d_id o_w_id : ℤ) : IndexKey :=
  packed o_w_id .order o_d_id o_id 0

def getDistrictNewOrderPrimaryKey (d_id w_id : ℤ) : IndexKey :=
  packed w_id .districtNewOrder d_id 0 0

def getNewOrderPrimaryKey (o_id d_id w_id : ℤ) : IndexKey :=
  packed w_id .newOrder d_id o_id 0

def getOrderLinePrimaryKey (o_id d_id w_id ol_no : ℤ) : IndexKey :=
  packed w_id .orderLine d_id o_id ol_no

def getHistoryPrimaryKey (c_id d_id w_id : ℤ) : IndexKey :=
  packed w_id .history d_id 0 c_id

def getStockPrimaryKey (i_id w_id : ℤ) : IndexKey :=
  packed w_id .stock 0 0 i_id

def getOrderLineSecondaryKey (o_id d_id w_id : ℤ) : IndexKey :=
  packed w_id .orderLine d_id o_id 0

end Keys

/-! ## Identifiers -/

/-- A call of a key function. -/
inductive Key
  | item (i_id w_id : ℤ)
  | warehouse (w_id : ℤ)
  | district (d_id w_id : ℤ)
  | customer (c_id d_id w_id : ℤ)
  | order (o_id d_id w_id : ℤ)
  | districtNewOrder (d_id w_id : ℤ)
  | newOrder (o_id d_id w_id : ℤ)
  | orderLine (o_id d_id w_id ol_no : ℤ)
  | history (c_id d_id w_id : ℤ)
  | stock (i_id w_id : ℤ)
  | orderLineSecondary (o_id d_id w_id : ℤ)
  deriving DecidableEq

namespace Key

/-- What the function returns, unless its assertion fails. -/
def code (P : ScaleParams) : Key → Option IndexKey
  | item i w => getItemPrimaryKey P i w
  | warehouse w => getWarehousePrimaryKey P w
  | district d w => getDistrictPrimaryKey P d w
  | customer c d w => getCustomerPrimaryKey P c d w
  | order o d w => getOrderPrimaryKey o d w
  | districtNewOrder d w => getDistrictNewOrderPrimaryKey d w
  | newOrder o d w => getNewOrderPrimaryKey o d w
  | orderLine o d w n => getOrderLinePrimaryKey o d w n
  | history c d w => getHistoryPrimaryKey c d w
  | stock i w => getStockPrimaryKey i w
  | orderLineSecondary o d w => getOrderLineSecondaryKey o d w

def table : Key → TableType
  | item .. => .item
  | warehouse .. => .warehouse
  | district .. => .district
  | customer .. => .customer
  | order .. => .order
  | districtNewOrder .. => .districtNewOrder
  | newOrder .. => .newOrder
  | orderLine .. => .orderLine
  | history .. => .history
  | stock .. => .stock
  | orderLineSecondary .. => .orderLine

end Key

namespace ScaleParams

variable (P : ScaleParams)

def Warehouse (w : ℤ) : Prop := 1 ≤ w ∧ w ≤ P.numWarehouses

def District (d : ℤ) : Prop := 1 ≤ d ∧ d ≤ P.numDistrictsPerWarehouse

def Customer (c : ℤ) : Prop := 1 ≤ c ∧ c ≤ P.numCustomersPerDistrict

def Item (i : ℤ) : Prop := 1 ≤ i ∧ i ≤ P.numItems

end ScaleParams

/-- Orders are numbered as long as there is a number. -/
def Order (o : ℤ) : Prop := 0 ≤ o ∧ o < 2 ^ 28

/-- An order has at most `MAX_OL_CNT` lines. -/
def Line (n : ℤ) : Prop := 1 ≤ n ∧ n ≤ 15

/-- The identifiers are within the ranges of the scale parameters. -/
def Key.Within (P : ScaleParams) : Key → Prop
  | item i w => P.Item i ∧ P.Warehouse w
  | warehouse w => P.Warehouse w
  | district d w => P.District d ∧ P.Warehouse w
  | customer c d w => P.Customer c ∧ P.District d ∧ P.Warehouse w
  | order o d w => Order o ∧ P.District d ∧ P.Warehouse w
  | districtNewOrder d w => P.District d ∧ P.Warehouse w
  | newOrder o d w => Order o ∧ P.District d ∧ P.Warehouse w
  | orderLine o d w n => Order o ∧ P.District d ∧ P.Warehouse w ∧ Line n
  | history c d w => P.Customer c ∧ P.District d ∧ P.Warehouse w
  | stock i w => P.Item i ∧ P.Warehouse w
  | orderLineSecondary o d w => Order o ∧ P.District d ∧ P.Warehouse w

/-- An identifier, with the bits that a key has for it. -/
structure Field where
  hi : ℕ
  lo : ℕ
  value : ℤ

/-- The fields of a key, the highest first. -/
def Key.fields (k : Key) : List Field :=
  match k with
  | item i w | stock i w => [⟨63, 58, w⟩, ⟨57, 54, k.table.id⟩, ⟨53, 0, i⟩]
  | warehouse w => [⟨63, 58, w⟩, ⟨57, 54, k.table.id⟩]
  | district d w | districtNewOrder d w => [⟨63, 58, w⟩, ⟨57, 54, k.table.id⟩, ⟨53, 32, d⟩]
  | customer c d w | history c d w =>
    [⟨63, 58, w⟩, ⟨57, 54, k.table.id⟩, ⟨53, 32, d⟩, ⟨31, 0, c⟩]
  | order o d w | newOrder o d w | orderLineSecondary o d w =>
    [⟨63, 58, w⟩, ⟨57, 54, k.table.id⟩, ⟨53, 32, d⟩, ⟨31, 4, o⟩]
  | orderLine o d w n =>
    [⟨63, 58, w⟩, ⟨57, 54, k.table.id⟩, ⟨53, 32, d⟩, ⟨31, 4, o⟩, ⟨3, 0, n⟩]

/-- The bits `hi` to `lo` of a key, as a number. -/
def field (key : IndexKey) (hi lo : ℕ) : ℤ :=
  (slice key hi lo : IndexKey).toNat

namespace ScaleParams

variable (P : ScaleParams)

/-- Distinct identifiers have distinct keys, in one table and in several. -/
def KeysDistinct : Prop :=
  ∀ k k' : Key, k.Within P → k'.Within P → k.code P = k'.code P → k = k'

/-- No assertion fails, and every identifier is in its bits of the key. -/
def FieldsKept : Prop :=
  ∀ k : Key, k.Within P → ∃ key, k.code P = some key ∧
    k.fields.Pairwise (fun f g => g.hi < f.lo) ∧ ∀ f ∈ k.fields, field key f.hi f.lo = f.value

end ScaleParams

/-! ## Packing -/

theorem TableType.id_lt (t : TableType) : t.id < 2 ^ 4 := by
  cases t <;> decide

/-- What lies below a shifted number does not touch it. -/
theorem shifted_or {a b i : ℕ} (h : b < 2 ^ i) : a * 2 ^ i ||| b = a * 2 ^ i + b := by
  rw [Nat.mul_comm, Nat.two_pow_add_eq_or_of_lt h]

theorem ofInt_shiftLeft {n s : ℕ} (h : n * 2 ^ s < 2 ^ 64) :
    (BitVec.ofInt 64 n <<< s).toNat = n * 2 ^ s := by
  have hn : n < 2 ^ 64 := (Nat.le_mul_of_pos_right n (Nat.two_pow_pos s)).trans_lt h
  rw [BitVec.toNat_shiftLeft, BitVec.ofInt_natCast, BitVec.toNat_ofNat, Nat.mod_eq_of_lt hn,
    Nat.shiftLeft_eq, Nat.mod_eq_of_lt h]

/-- Where each identifier has room, a key is their sum. -/
theorem packed_toNat {w d o l : ℕ} (t : TableType) (hw : w < 2 ^ 6) (hd : d < 2 ^ 22)
    (ho : o < 2 ^ 28) (h : l < 2 ^ 4 ∨ o = 0 ∧ l < 2 ^ 32) :
    (packed w t d o l).toNat = w * 2 ^ 58 + t.id * 2 ^ 54 + d * 2 ^ 32 + o * 2 ^ 4 + l := by
  have ht := t.id_lt
  have hlow : o * 2 ^ 4 ||| l = o * 2 ^ 4 + l := by
    rcases h with hl | ⟨rfl, -⟩
    · exact shifted_or hl
    · rw [Nat.zero_mul, Nat.zero_or, Nat.zero_add]
  have htable : (BitVec.ofNat 64 t.id <<< kTableIdLowBits).toNat = t.id * 2 ^ 54 :=
    ofInt_shiftLeft (s := kTableIdLowBits) (by simp only [kTableIdLowBits]; omega)
  have hlowest : (BitVec.ofInt 64 l).toNat = l := by
    rw [BitVec.ofInt_natCast, BitVec.toNat_ofNat]
    omega
  calc (packed w t d o l).toNat
      = w * 2 ^ 58 ||| (t.id * 2 ^ 54 ||| (d * 2 ^ 32 ||| (o * 2 ^ 4 ||| l))) := by
        simp only [packed, BitVec.toNat_or, htable, hlowest, Nat.or_assoc]
        rw [ofInt_shiftLeft (by simp only [kWarehouseBits]; omega),
          ofInt_shiftLeft (by simp only [kDistrictLowBits]; omega),
          ofInt_shiftLeft (by simp only [kOrderIdLowBits]; omega)]
        rfl
    _ = w * 2 ^ 58 + (t.id * 2 ^ 54 + (d * 2 ^ 32 + (o * 2 ^ 4 + l))) := by
        have hdistrict : d * 2 ^ 32 ||| (o * 2 ^ 4 + l) = d * 2 ^ 32 + (o * 2 ^ 4 + l) :=
          shifted_or (by omega)
        have htable : t.id * 2 ^ 54 ||| (d * 2 ^ 32 + (o * 2 ^ 4 + l))
            = t.id * 2 ^ 54 + (d * 2 ^ 32 + (o * 2 ^ 4 + l)) := shifted_or (by omega)
        rw [hlow, hdistrict, htable, shifted_or (by omega)]
    _ = w * 2 ^ 58 + t.id * 2 ^ 54 + d * 2 ^ 32 + o * 2 ^ 4 + l := by
        simp only [Nat.add_assoc]

theorem field_eq (key : IndexKey) {hi lo : ℕ} (h : hi < 64) :
    field key hi lo = key.toNat / 2 ^ lo % 2 ^ (hi + 1 - lo) := by
  have hle : 2 ^ (hi + 1 - lo) ≤ 2 ^ 64 := Nat.pow_le_pow_right (by decide) (by omega)
  have hlt : key.toNat / 2 ^ lo % 2 ^ (hi + 1 - lo) < 2 ^ 64 :=
    (Nat.mod_lt _ (Nat.two_pow_pos _)).trans_le hle
  rw [field, slice, BitVec.toNat_setWidth, BitVec.extractLsb'_toNat, Nat.shiftRight_eq_div_pow,
    Nat.mod_eq_of_lt hlt]
  push_cast
  rfl

/-! ## Identifiers have room -/

/-- What `int` lets through. -/
theorem int_eq_some {n m : ℤ} (h : int n = some m) : n = m ∧ m < 2 ^ 31 := by
  simp only [int] at h
  split at h
  next hn =>
    cases h
    exact ⟨rfl, hn.2⟩
  next => cases h

theorem Double.toInt_lt {x : Double} {n : ℤ} (h : x.toInt = some n) : n < 2 ^ 31 := by
  cases x with
  | finite q => exact (int_eq_some h).2
  | infinite => cases h
  | nan => cases h

/-- What is admitted for items, districts and customers has room in any case. -/
structure ScaleParams.Room (P : ScaleParams) : Prop where
  items : P.numItems < 2 ^ 31
  districts : P.numDistrictsPerWarehouse = 10
  customers : P.numCustomersPerDistrict < 2 ^ 31

theorem fillScaleParams_spec {warehouses scaleFactor : Double} {config : ClusterConfig}
    {P : ScaleParams} (h : fillScaleParams [warehouses, scaleFactor] config = some P) :
    warehouses.toInt = some P.numWarehouses ∧ P.Room := by
  simp only [fillScaleParams, Option.bind_eq_bind, Option.bind_eq_some_iff, Option.pure_def] at h
  obtain ⟨_, hwarehouses, _, -, _, -, _, -, _, -, _, -, _, -, _, -, _, -, _, -, items, hitems,
    customers, hcustomers, _, -, h⟩ := h
  cases h
  exact ⟨hwarehouses, Double.toInt_lt hitems, rfl, Double.toInt_lt hcustomers⟩

namespace Key

/-- The identifiers of a key, each with the place that it has. -/
structure Ids where
  w_id : ℤ
  d_id : ℤ
  o_id : ℤ
  low : ℤ

def ids : Key → Ids
  | item i w | stock i w => ⟨w, 0, 0, i⟩
  | warehouse w => ⟨w, 0, 0, 0⟩
  | district d w | districtNewOrder d w => ⟨w, d, 0, 0⟩
  | customer c d w | history c d w => ⟨w, d, 0, c⟩
  | order o d w | newOrder o d w | orderLineSecondary o d w => ⟨w, d, o, 0⟩
  | orderLine o d w n => ⟨w, d, o, n⟩

variable {P : ScaleParams} {k : Key}

theorem guarded {α : Type} {p : Prop} [Decidable p] (h : p) (x : α) :
    (do guard p; return x : Option α) = some x := by
  rw [guard, if_pos h]
  rfl

/-- No assertion fails. -/
theorem code_eq (hk : k.Within P) :
    k.code P = some (packed k.ids.w_id k.table k.ids.d_id k.ids.o_id k.ids.low) := by
  cases k with
  | item i w => exact guarded ⟨hk.1.1, hk.1.2⟩ _
  | warehouse w => exact guarded ⟨hk.1, hk.2⟩ _
  | district d w => exact guarded ⟨hk.1.1, hk.1.2, hk.2⟩ _
  | customer c d w => exact guarded ⟨hk.1.1, hk.1.2⟩ _
  | _ => rfl

/-- All identifiers but those of the warehouses have room. -/
theorem ids_fit (hP : P.Room) (hk : k.Within P) :
    (0 < k.ids.w_id ∧ k.ids.w_id ≤ P.numWarehouses) ∧ (0 ≤ k.ids.d_id ∧ k.ids.d_id < 2 ^ 22) ∧
      (0 ≤ k.ids.o_id ∧ k.ids.o_id < 2 ^ 28) ∧
      0 ≤ k.ids.low ∧ (k.ids.low < 2 ^ 4 ∨ k.ids.o_id = 0 ∧ k.ids.low < 2 ^ 32) := by
  obtain ⟨hitems, hdistricts, hcustomers⟩ := hP
  cases k <;>
    simp only [Within, ScaleParams.Item, ScaleParams.Warehouse, ScaleParams.District,
      ScaleParams.Customer, Order, Line] at hk <;>
    simp only [ids, le_refl, true_and] <;> omega

/-- The key is the sum of its identifiers. -/
def SumOf (k : Key) (key : IndexKey) : Prop :=
  (key.toNat : ℤ) = k.ids.w_id * 2 ^ 58 + k.table.id * 2 ^ 54 + k.ids.d_id * 2 ^ 32 +
    k.ids.o_id * 2 ^ 4 + k.ids.low

/-- With room for the warehouses, a key is the sum of its identifiers. -/
theorem exists_code (hP : P.Room) (hw : P.numWarehouses ≤ 63) (hk : k.Within P) :
    ∃ key, k.code P = some key ∧ k.SumOf key := by
  obtain ⟨⟨hw0, hwle⟩, ⟨hd0, hd⟩, ⟨ho0, ho⟩, hl0, hl⟩ := ids_fit hP hk
  rw [code_eq hk]
  refine ⟨_, rfl, ?_⟩
  unfold SumOf
  generalize k.ids = ids at *
  obtain ⟨w, d, o, l⟩ := ids
  simp only at *
  lift w to ℕ using hw0.le
  lift d to ℕ using hd0
  lift o to ℕ using ho0
  lift l to ℕ using hl0
  rw [packed_toNat k.table (by omega) (by omega) (by omega) (by omega)]
  push_cast
  rfl

theorem fields_apart : k.fields.Pairwise fun f g => g.hi < f.lo := by
  cases k <;> simp [fields]

/-- What is read from the sum. -/
structure Reads (k : Key) (key : IndexKey) : Prop where
  warehouse : field key 63 58 = k.ids.w_id
  table : field key 57 54 = k.table.id
  district : field key 53 32 = k.ids.d_id
  rest : field key 53 0 = k.ids.d_id * 2 ^ 32 + k.ids.o_id * 2 ^ 4 + k.ids.low
  low : field key 31 0 = k.ids.o_id * 2 ^ 4 + k.ids.low
  order : k.ids.low < 2 ^ 4 → field key 31 4 = k.ids.o_id
  line : k.ids.low < 2 ^ 4 → field key 3 0 = k.ids.low

theorem SumOf.reads (hP : P.Room) (hw : P.numWarehouses ≤ 63) (hk : k.Within P) {key : IndexKey}
    (h : k.SumOf key) : k.Reads key := by
  have hfit := ids_fit hP hk
  have ht := k.table.id_lt
  unfold SumOf at h
  constructor <;> intros <;> rw [field_eq key (by decide)] <;> omega

/-- Every identifier is in its bits of the sum. -/
theorem Reads.fields {key : IndexKey} (h : k.Reads key) (hk : k.Within P) :
    ∀ f ∈ k.fields, field key f.hi f.lo = f.value := by
  refine List.forall_iff_forall_mem.mp ?_
  have hzero : (0 : ℤ) < 2 ^ 4 := by decide
  cases k with
  | item i w | stock i w => exact ⟨h.warehouse, h.table, by simpa [ids] using h.rest⟩
  | warehouse w => exact ⟨h.warehouse, h.table⟩
  | district d w | districtNewOrder d w => exact ⟨h.warehouse, h.table, h.district⟩
  | customer c d w | history c d w =>
    exact ⟨h.warehouse, h.table, h.district, by simpa [ids] using h.low⟩
  | order o d w | newOrder o d w | orderLineSecondary o d w =>
    exact ⟨h.warehouse, h.table, h.district, h.order hzero⟩
  | orderLine o d w n =>
    have hn : n < 2 ^ 4 := Int.lt_of_le_of_lt hk.2.2.2.2 (by decide)
    exact ⟨h.warehouse, h.table, h.district, h.order hn, h.line hn⟩

/-- What a key was made of. -/
def decode (key : IndexKey) : Option Key :=
  let w := field key 63 58
  let d := field key 53 32
  let o := field key 31 4
  match field key 57 54 with
  | 0 => some (.item (field key 53 0) w)
  | 1 => some (.stock (field key 53 0) w)
  | 2 => some (.warehouse w)
  | 3 => some (.district d w)
  | 4 => some (.districtNewOrder d w)
  | 5 => some (.newOrder o d w)
  | 6 => some (.order o d w)
  | 7 => some (if field key 3 0 = 0 then .orderLineSecondary o d w
      else .orderLine o d w (field key 3 0))
  | 8 => some (.customer (field key 31 0) d w)
  | 9 => some (.history (field key 31 0) d w)
  | _ => none

theorem Reads.decode {key : IndexKey} (h : k.Reads key) (hk : k.Within P) :
    decode key = some k := by
  have hzero : (0 : ℤ) < 2 ^ 4 := by decide
  obtain ⟨hw, ht, hd, hrest, hlow, ho, hl⟩ := h
  unfold Key.decode
  cases k with
  | item i w | stock i w =>
    simp only [ids, Key.table, TableType.id, Int.zero_mul, Int.zero_add] at hw ht hrest
    simp only [ht, hw, hrest, Nat.cast_zero, Nat.cast_one]
  | warehouse w =>
    simp only [ids, Key.table, TableType.id] at hw ht
    simp only [ht, hw, Nat.cast_ofNat]
  | district d w | districtNewOrder d w =>
    simp only [ids, Key.table, TableType.id] at hw ht hd
    simp only [ht, hw, hd, Nat.cast_ofNat]
  | customer c d w | history c d w =>
    simp only [ids, Key.table, TableType.id, Int.zero_mul, Int.zero_add] at hw ht hd hlow
    simp only [ht, hw, hd, hlow, Nat.cast_ofNat]
  | order o d w | newOrder o d w =>
    simp only [ids, Key.table, TableType.id] at hw ht hd ho
    simp only [ht, hw, hd, ho hzero, Nat.cast_ofNat]
  | orderLineSecondary o d w =>
    simp only [ids, Key.table, TableType.id] at hw ht hd ho hl
    simp only [ht, hw, hd, ho hzero, hl hzero, Nat.cast_ofNat, if_pos]
  | orderLine o d w n =>
    have hn : n < 2 ^ 4 := Int.lt_of_le_of_lt hk.2.2.2.2 (by decide)
    have hne : n ≠ 0 := Int.ne_of_gt hk.2.2.2.1
    simp only [ids, Key.table, TableType.id] at hw ht hd ho hl
    simp only [ht, hw, hd, ho hn, hl hn, Nat.cast_ofNat, if_neg hne]

end Key

/-! ## Unique keys -/

variable {P : ScaleParams}

theorem ScaleParams.Room.fieldsKept (hP : P.Room) (hw : P.numWarehouses ≤ 63) : P.FieldsKept := by
  intro k hk
  obtain ⟨key, hcode, hsum⟩ := Key.exists_code hP hw hk
  exact ⟨key, hcode, Key.fields_apart, (hsum.reads hP hw hk).fields hk⟩

theorem ScaleParams.Room.keysDistinct (hP : P.Room) (hw : P.numWarehouses ≤ 63) :
    P.KeysDistinct := by
  intro k k' hk hk' h
  obtain ⟨key, hcode, hsum⟩ := Key.exists_code hP hw hk
  obtain ⟨key', hcode', hsum'⟩ := Key.exists_code hP hw hk'
  obtain rfl : key = key' := by
    rw [hcode, hcode'] at h
    exact Option.some.inj h
  have hdecode := (hsum.reads hP hw hk).decode hk
  rw [(hsum'.reads hP hw hk').decode hk'] at hdecode
  exact (Option.some.inj hdecode).symm

/-- The number of a warehouse beyond the sixty-third is not in the six bits that it has. -/
theorem ScaleParams.FieldsKept.numWarehouses_le (h : P.FieldsKept) : P.numWarehouses ≤ 63 := by
  by_contra hmany
  obtain ⟨key, -, -, hfields⟩ := h (.warehouse 64) ⟨by decide, by omega⟩
  have hfield : field key 63 58 = 64 := hfields ⟨63, 58, 64⟩ List.mem_cons_self
  rw [field_eq key (by decide)] at hfield
  omega

/-! ## A single server -/

theorem Double.ofRat_natCast {n : ℕ} (h0 : 0 < n) (h : n < 2 ^ 53) : ofRat n = n := by
  have hpos : (0 : ℚ) < n := by exact_mod_cast h0
  rw [ofRat, if_neg (by linarith)]
  exact le_antisymm (Rounding.roundTo_le hpos h le_rfl)
    (Rounding.le_roundTo (by decide) hpos h le_rfl)

theorem Double.toInt_natCast {n : ℕ} (h : n < 2 ^ 31) : toInt (finite n) = some (n : ℤ) := by
  have hneg : ¬ ((n : ℚ) < 0) := by
    have := n.cast_nonneg (α := ℚ)
    linarith
  rw [toInt, if_neg hneg, Int.floor_natCast, int, if_pos (by omega)]

theorem Double.quotient_one {n : ℕ} (h0 : 0 < n) (h : n < 2 ^ 31) :
    (quotient n (finite 1)).toInt = some (n : ℤ) := by
  rw [quotient, if_neg one_ne_zero, div_one, ofRat_natCast h0 (h.trans (by norm_num)),
    toInt_natCast h]

theorem bind_of_some {α β : Type} {x : Option α} {a : α} {f : α → Option β} {b : Option β}
    (h : x = some a) (hf : f a = b) : (x >>= f) = b := by
  rw [h]
  exact hf

/-- `server`, alone, with a scale factor of one. -/
def ClusterConfig.single (server : ServerInfo) : ClusterConfig :=
  ⟨[server], server⟩

def ScaleParams.single (n : ℕ) : ScaleParams where
  numWarehouses := n
  startingWarehouse := 1
  endingWarehouse := n
  partitionId := 0
  scaleFactor := .finite 1
  numItems := Tpcc.numItems
  numDistrictsPerWarehouse := districtsPerWarehouse
  numCustomersPerDistrict := customersPerDistrict
  numNewOrdersPerDistrict := initialNewOrdersPerDistrict

theorem fillScaleParams_single {n : ℕ} (h0 : 0 < n) (h : n + 1 < 2 ^ 31) (server : ServerInfo) :
    fillScaleParams [.finite n, .finite 1] (.single server) = some (.single n) := by
  have hpartition : intOfSize (ClusterConfig.single server).getMyPartitionId = 0 := by
    simp [ClusterConfig.getMyPartitionId, ClusterConfig.single, intOfSize]
  have hnum : intOfSize (ClusterConfig.single server).getPartitionNum = 1 := by
    simp [ClusterConfig.getPartitionNum, ClusterConfig.single, intOfSize]
  have hint {m : ℤ} (hm0 : 0 ≤ m) (hm : m < 2 ^ 31) : int m = some m := if_pos ⟨by omega, hm⟩
  have hlast : (if (1 + 0 + n - 1 : ℤ) > n then (n : ℤ) else 1 + 0 + n - 1) = n := by
    split <;> omega
  simp only [fillScaleParams, hpartition, hnum]
  refine bind_of_some (Double.toInt_natCast (by omega)) ?_
  refine bind_of_some (hint (by omega) (by omega)) ?_
  refine bind_of_some (hint (by omega) (by omega)) ?_
  refine bind_of_some (if_pos one_ne_zero) ?_
  simp only [add_sub_cancel_right, Int.tdiv_one, mul_zero]
  refine bind_of_some (hint (by omega) (by omega)) ?_
  refine bind_of_some (hint le_rfl (by norm_num)) ?_
  refine bind_of_some (hint (by norm_num) (by norm_num)) ?_
  refine bind_of_some (hint (by omega) (by omega)) ?_
  refine bind_of_some (hint (by omega) (by omega)) ?_
  rw [hlast]
  refine bind_of_some (if_pos (by omega)) ?_
  refine bind_of_some (Double.quotient_one (by norm_num [numItems]) (by norm_num [numItems])) ?_
  refine bind_of_some (Double.quotient_one (by norm_num [customersPerDistrict])
    (by norm_num [customersPerDistrict])) ?_
  refine bind_of_some (Double.quotient_one (by norm_num [initialNewOrdersPerDistrict])
    (by norm_num [initialNewOrdersPerDistrict])) ?_
  rfl

/-- The keys of what `FillScaleParams` admits are unique and every identifier stays in its bits, if
and only if the number of warehouses that it is called with is at most 63. -/
theorem keys_unique_iff {warehouses scaleFactor : Double} {config : ClusterConfig}
    {P : ScaleParams} (h : fillScaleParams [warehouses, scaleFactor] config = some P) :
    P.KeysDistinct ∧ P.FieldsKept ↔ ∃ n, warehouses.toInt = some n ∧ n ≤ 63 := by
  obtain ⟨hwarehouses, hP⟩ := fillScaleParams_spec h
  constructor
  · rintro ⟨-, hkept⟩
    exact ⟨_, hwarehouses, hkept.numWarehouses_le⟩
  · rintro ⟨n, hn, hle⟩
    obtain rfl : P.numWarehouses = n := Option.some.inj (hwarehouses.symm.trans hn)
    exact ⟨hP.keysDistinct hle, hP.fieldsKept hle⟩

theorem keys_unique_ten : (ScaleParams.single 10).KeysDistinct ∧ (ScaleParams.single 10).FieldsKept :=
  (keys_unique_iff (fillScaleParams_single (by decide) (by decide) ⟨"localhost", 12345⟩)).mpr
    ⟨10, Double.toInt_natCast (by decide), by decide⟩

/-- With 65 warehouses the last has the key of the first. -/
theorem keys_collide : ∃ P key,
    fillScaleParams [.finite 65, .finite 1] (.single ⟨"localhost", 12345⟩) = some P ∧
      getWarehousePrimaryKey P 1 = some key ∧ getWarehousePrimaryKey P 65 = some key ∧
      ¬ (P.KeysDistinct ∧ P.FieldsKept) := by
  have hkeys : getWarehousePrimaryKey (.single 65) 1 = getWarehousePrimaryKey (.single 65) 65 := by
    decide
  refine ⟨.single 65, packed 1 .warehouse 0 0 0, fillScaleParams_single (by decide) (by decide) _,
    Key.guarded (by decide) _, hkeys ▸ Key.guarded (by decide) _, fun h => ?_⟩
  have hsame : Key.warehouse 1 = .warehouse 65 :=
    h.1 _ _ ⟨by decide, by decide⟩ ⟨by decide, by decide⟩ hkeys
  simp at hsame

end Tpcc

end Ting
