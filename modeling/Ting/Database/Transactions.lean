/-
# `Ting.Database.Transactions` — transactions of several threads

Each thread has a `TransactionManager`.  A transaction selects records, which copies them out of
global memory; the procedure changes the copies, and the commit writes them back.  What one thread
reads or writes as a whole the others may interrupt, so it is done a byte at a time here.

A record is locked before it is selected, and unlocked when the commit has written it.  What the
locks answer is up to the allocator, and `Contract` is what is expected of them; those of `DSM`
always succeed, and exclude nobody.  As long as the contract is kept, the transactions are
serializable, in the order in which their commits begin.

A new record is in memory before its transaction commits, and stays there if it does not; so it
counts as a transaction of its own.  A transaction is what has been selected since the list of
accesses was last cleared: a procedure that gives up because it does not find a record leaves its
accesses to the next one.
-/
import Ting.Database.Record
import Ting.Lib.TwoPhase
import Ting.Lib.Transition

namespace Ting

namespace Database

open TwoPhase

/-! ## Accesses -/

/-- A byte of a node. -/
abbrev Place := BitVec 8 × BitVec 64

/-- The `k`-th byte from an address on. -/
def GAddr.place (a : GAddr) (k : ℕ) : Place :=
  (a.nodeID, a.addr + BitVec.ofNat 64 k)

/-- A byte is written. -/
def Memory.putByte (m : Memory) (p : Place × BitVec 8) : Memory :=
  Function.curry (Function.update (Function.uncurry m) p.1 p.2)

/-- The bytes of a record, and where they are when it is at an address. -/
def Record.cells (r : Record) (addr : GAddr) : List (Place × BitVec 8) :=
  (List.finRange r.schema.getSchemaSize).map fun (k : Fin _) => (addr.place k, r.data k)

/-- `AccessType`. -/
inductive AccessType
  | readOnly
  | readWrite
  | insertOnly
  | deleteOnly
  deriving DecidableEq

/-- A record that is selected to be deleted is made invisible. -/
def Record.selectedFor (r : Record) (accessType : AccessType) : Option Record :=
  if accessType = .deleteOnly then r.setVisible false else some r

/-- Whether the lock of the record excludes readers. -/
def AccessType.exclusive : AccessType → Bool
  | .readOnly => false
  | _ => true

/-- `struct Access`.  `read` is a history: the bytes that the record was made of. -/
structure TxnAccess where
  accessType : AccessType
  record : Record
  addr : GAddr
  read : List (Place × BitVec 8)

/-- What `CommitTransaction` writes. -/
def TxnAccess.writes (a : TxnAccess) : List (Place × BitVec 8) :=
  match a.accessType with
  | .readWrite | .deleteOnly => a.record.cells a.addr
  | _ => []

/-- `kMaxAccessLimit`. -/
def kMaxAccessLimit : ℕ := 256

/-- `kTryLockLimit`. -/
def kTryLockLimit : ℕ := 1

/-- `NewAccess`. -/
def newAccess (accesses : List TxnAccess) (a : TxnAccess) : Option (List TxnAccess) := do
  guard (accesses.length < kMaxAccessLimit)
  return accesses ++ [a]

/-- The loop of `TryRLockRecord` and `TryWLockRecord`, with the attempts that are left after the
next one.  `answers` are those of the allocator, zero for success. -/
def tryLock (answers : ℕ → ℤ) (tryCount : ℕ) : ℕ → Bool
  | 0 => answers tryCount = 0
  | left + 1 => answers tryCount = 0 || tryLock answers (tryCount + 1) left

/-- `TryRLockRecord` and `TryWLockRecord`. -/
def tryLockRecord (answers : ℕ → ℤ) : Bool :=
  tryLock answers 0 (kTryLockLimit - 1)

/-! ## The manager of a thread -/

/-- Where a thread is: in its procedure, in the `Deserialize` of `SelectRecordCC` with what it has
read, in the `Serialize` of a new record that it is about to insert, with the bytes written, in the
first loop of `CommitTransaction` at an access with the bytes of it written, or in the one of
`AbortTransaction`. -/
inductive Pc
  | running
  | deserializing (accessType : AccessType) (record : Record) (addr : GAddr)
      (read : List (Place × BitVec 8))
  | serializing (record : Record) (addr : GAddr) (k : ℕ)
  | committing (i k : ℕ)
  | aborting (i : ℕ)

/-- `TransactionManager`. -/
structure TransactionManager where
  accessList : List TxnAccess
  pc : Pc

namespace TransactionManager

/-- `SelectRecordCC`: the lock. -/
def selectRecordCC (m : TransactionManager) (schema : RecordSchema) (accessType : AccessType)
    (addr : GAddr) (answers : ℕ → ℤ) (junk : ℕ → BitVec 8) : Option TransactionManager :=
  match m.pc with
  | .running => some
      (if tryLockRecord answers then
        { m with pc := .deserializing accessType ⟨schema, fun k => junk k⟩ addr [] }
      else { m with pc := .aborting 0 })
  | _ => none

/-- `SelectRecordCC`: the next byte of `Deserialize`, and, when there is none, the access. -/
def deserialize (m : TransactionManager) (memory : Memory) : Option TransactionManager :=
  match m.pc with
  | .deserializing accessType record addr read =>
      if h : read.length < record.schema.getSchemaSize then
        let p := addr.place read.length
        let b := Function.uncurry memory p
        let data := Function.update record.data ⟨read.length, h⟩ b
        some { m with
          pc := .deserializing accessType { record with data } addr (read ++ [(p, b)]) }
      else do
        let record ← record.selectedFor accessType
        let accessList ← newAccess m.accessList ⟨accessType, record, addr, read⟩
        return ⟨accessList, .running⟩
  | _ => none

/-- `SetColumn` of a record that the procedure has selected or inserted. -/
def setColumn (m : TransactionManager) (i colId : ℕ) (src : ℕ → BitVec 8) :
    Option TransactionManager :=
  match m.pc, m.accessList[i]? with
  | .running, some a => do
      let record ← a.record.setColumn colId src
      return { m with accessList := m.accessList.set i { a with record } }
  | _, _ => none

/-- A new record, in memory that was allocated for it; `write` says whether the procedure
serializes it. -/
def newRecord (m : TransactionManager) (record : Record) (addr : GAddr) (write : Bool) :
    Option (TransactionManager × Entry Place (BitVec 8)) :=
  match m.pc with
  | .running =>
      let k := if write then 0 else (record.cells addr).length
      some ({ m with pc := .serializing record addr k }, ⟨[], (record.cells addr).drop k⟩)
  | _ => none

/-- The next byte of its `Serialize`. -/
def serialize (m : TransactionManager) : Option (TransactionManager × (Place × BitVec 8)) :=
  match m.pc with
  | .serializing record addr k =>
      (record.cells addr)[k]?.map fun p => ({ m with pc := .serializing record addr (k + 1) }, p)
  | _ => none

/-- `InsertRecord`, which asserts that it gets the lock. -/
def insertRecord (m : TransactionManager) (answers : ℕ → ℤ) : Option TransactionManager :=
  match m.pc with
  | .serializing record addr k => do
      guard ((record.cells addr)[k]? = none ∧ tryLockRecord answers)
      let record ← record.setVisible true
      let accessList ← newAccess m.accessList ⟨.insertOnly, record, addr, []⟩
      return ⟨accessList, .running⟩
  | _ => none

/-- `CommitTransaction` begins. -/
def commitTransaction (m : TransactionManager) :
    Option (TransactionManager × Entry Place (BitVec 8)) :=
  match m.pc with
  | .running => some ({ m with pc := .committing 0 0 },
      ⟨m.accessList.flatMap TxnAccess.read, m.accessList.flatMap TxnAccess.writes⟩)
  | _ => none

/-- The first loop of `CommitTransaction`: a byte is written, or the record is unlocked; behind the
last access the list is cleared. -/
def commitStep (m : TransactionManager) :
    Option (TransactionManager × Option (Place × BitVec 8)) :=
  match m.pc with
  | .committing i k =>
      match m.accessList[i]? with
      | some a =>
          match a.writes[k]? with
          | some p => some ({ m with pc := .committing i (k + 1) }, some p)
          | none => some ({ m with pc := .committing (i + 1) 0 }, none)
      | none => some (⟨[], .running⟩, none)
  | _ => none

/-- The first loop of `AbortTransaction`: a record is unlocked. -/
def abortStep (m : TransactionManager) : Option TransactionManager :=
  match m.pc with
  | .aborting i => some
      (if i < m.accessList.length then { m with pc := .aborting (i + 1) } else ⟨[], .running⟩)
  | _ => none

end TransactionManager

/-! ## Locks -/

/-- The lock of a record. -/
structure RecordLock where
  exclusive : Bool
  addr : GAddr
  size : ℕ

/-- The bytes of the record. -/
def RecordLock.bytes (l : RecordLock) : Set Place :=
  l.addr.bytes l.size

/-- Two threads may have these locks at the same time. -/
def RecordLock.Compatible (l l' : RecordLock) : Prop :=
  l.exclusive ∨ l'.exclusive → Disjoint l.bytes l'.bytes

/-- The lock that `SelectRecordCC` takes. -/
def TxnAccess.lock (a : TxnAccess) : RecordLock :=
  ⟨a.accessType.exclusive, a.addr, a.record.schema.getSchemaSize⟩

/-- The locks that a thread has taken and not given back. -/
def TransactionManager.locks (m : TransactionManager) : List RecordLock :=
  match m.pc with
  | .running => m.accessList.map TxnAccess.lock
  | .deserializing accessType record addr _ => m.accessList.map TxnAccess.lock ++
      [⟨accessType.exclusive, addr, record.schema.getSchemaSize⟩]
  | .serializing record addr _ => m.accessList.map TxnAccess.lock ++
      [⟨true, addr, record.schema.getSchemaSize⟩]
  | .committing i _ | .aborting i => (m.accessList.drop i).map TxnAccess.lock

/-! ## Threads -/

/-- Global memory and the managers of the threads.  `log` is a history: the transactions that have
begun to commit, and the new records. -/
structure Threads (T : Type) where
  memory : Memory
  managers : T → TransactionManager
  log : List (Entry Place (BitVec 8))

/-- A step of a thread. -/
inductive TransactionAction (T : Type)
  | select (t : T) (schema : RecordSchema) (accessType : AccessType) (addr : GAddr)
      (answers : ℕ → ℤ) (junk : ℕ → BitVec 8)
  | deserialize (t : T)
  | setColumn (t : T) (i colId : ℕ) (src : ℕ → BitVec 8)
  | newRecord (t : T) (record : Record) (addr : GAddr) (write : Bool)
  | serialize (t : T)
  | insert (t : T) (answers : ℕ → ℤ)
  | commit (t : T)
  | commitStep (t : T)
  | abortStep (t : T)

namespace Threads

variable {T : Type} [DecidableEq T]

/-- A thread goes on. -/
def set (s : Threads T) (t : T) (m : TransactionManager) : Threads T :=
  { s with managers := Function.update s.managers t m }

/-- The step function. -/
def step (a : TransactionAction T) (s : Threads T) : Option (Threads T) :=
  match a with
  | .select t schema accessType addr answers junk =>
      ((s.managers t).selectRecordCC schema accessType addr answers junk).map (s.set t)
  | .deserialize t => ((s.managers t).deserialize s.memory).map (s.set t)
  | .setColumn t i colId src => ((s.managers t).setColumn i colId src).map (s.set t)
  | .newRecord t record addr write =>
      ((s.managers t).newRecord record addr write).map fun x =>
        { s.set t x.1 with log := s.log ++ [x.2] }
  | .serialize t => (s.managers t).serialize.map fun x =>
      { s.set t x.1 with memory := s.memory.putByte x.2 }
  | .insert t answers => ((s.managers t).insertRecord answers).map (s.set t)
  | .commit t => (s.managers t).commitTransaction.map fun x =>
      { s.set t x.1 with log := s.log ++ [x.2] }
  | .commitStep t => (s.managers t).commitStep.map fun x =>
      { s.set t x.1 with memory := x.2.elim s.memory s.memory.putByte }
  | .abortStep t => (s.managers t).abortStep.map (s.set t)

/-- What is expected of the locks: one that is granted is compatible with those of the other
threads.  And the memory for a new record is nobody's. -/
def Contract (s : Threads T) : TransactionAction T → Prop
  | .select t schema accessType addr answers _ => tryLockRecord answers → ∀ t', t' ≠ t →
      ∀ l ∈ (s.managers t').locks,
        RecordLock.Compatible ⟨accessType.exclusive, addr, schema.getSchemaSize⟩ l
  | .newRecord _ record addr _ => ∀ t', ∀ l ∈ (s.managers t').locks,
      RecordLock.Compatible ⟨true, addr, record.schema.getSchemaSize⟩ l
  | _ => True

/-- At the start no transaction has begun. -/
structure Init (m₀ : Memory) (s : Threads T) : Prop where
  memory : s.memory = m₀
  managers : ∀ t, s.managers t = ⟨[], .running⟩
  log : s.log = []

end Threads

/-- The transactions of several threads, on a memory that holds `m₀` at the start. -/
def transactions (T : Type) [DecidableEq T] (m₀ : Memory) :
    TransitionSystem (Threads T) (TransactionAction T) :=
  ⟨Threads.Init m₀, Threads.step⟩

/-! ## What a thread has read, writes and has locked -/

/-- What is left to write of some accesses, when `k` bytes of the first are written. -/
def remaining : List TxnAccess → ℕ → List (Place × BitVec 8)
  | [], _ => []
  | a :: as, k => a.writes.drop k ++ as.flatMap TxnAccess.writes

@[simp] theorem remaining_zero (as : List TxnAccess) :
    remaining as 0 = as.flatMap TxnAccess.writes := by
  cases as with
  | nil => rfl
  | cons a as => rfl

namespace TransactionManager

variable {m m' : TransactionManager}

/-- What the transaction in progress has read; when it commits this is in the log. -/
def reads (m : TransactionManager) : List (Place × BitVec 8) :=
  match m.pc with
  | .running | .serializing .. => m.accessList.flatMap TxnAccess.read
  | .deserializing _ _ _ read => m.accessList.flatMap TxnAccess.read ++ read
  | .committing .. | .aborting _ => []

/-- What is in the log and not in memory yet. -/
def writes (m : TransactionManager) : List (Place × BitVec 8) :=
  match m.pc with
  | .serializing record addr k => (record.cells addr).drop k
  | .committing i k => remaining (m.accessList.drop i) k
  | .running | .deserializing .. | .aborting _ => []

/-- The party that a thread is. -/
def party (m : TransactionManager) : Party Place (BitVec 8) where
  reads := m.reads
  writes := m.writes
  shared := {p | ∃ l ∈ m.locks, l.exclusive = false ∧ p ∈ l.bytes}
  owned := {p | ∃ l ∈ m.locks, l.exclusive = true ∧ p ∈ l.bytes}

theorem mem_locked {p : Place} : p ∈ m.party.locked ↔ ∃ l ∈ m.locks, p ∈ l.bytes := by
  constructor
  · rintro (⟨l, hl, -, hp⟩ | ⟨l, hl, -, hp⟩)
    · exact ⟨l, hl, hp⟩
    · exact ⟨l, hl, hp⟩
  · rintro ⟨l, hl, hp⟩
    cases he : l.exclusive with
    | false => exact .inl ⟨l, hl, he, hp⟩
    | true => exact .inr ⟨l, hl, he, hp⟩

/-- A party is what it has read, what it writes and its locks. -/
theorem party_congr (hr : m'.reads = m.reads) (hw : m'.writes = m.writes)
    (hl : m'.locks = m.locks) : m'.party = m.party := by
  unfold party
  rw [hr, hw, hl]

end TransactionManager

/-! ## Records and their bytes -/

theorem Record.setColumn_schema {r r' : Record} {i : ℕ} {src : ℕ → BitVec 8}
    (h : r.setColumn i src = some r') : r'.schema = r.schema := by
  simp only [Record.setColumn, Option.bind_eq_bind, Option.bind_eq_some_iff, Option.pure_def,
    Option.some.injEq] at h
  obtain ⟨offset, -, size, -, rfl⟩ := h
  rfl

theorem Record.setVisible_schema {r r' : Record} {val : Bool} (h : r.setVisible val = some r') :
    r'.schema = r.schema := by
  simp only [Record.setVisible, Option.bind_eq_bind, Option.bind_eq_some_iff] at h
  obtain ⟨metaCol, -, h⟩ := h
  exact Record.setColumn_schema h

theorem Record.selectedFor_schema {r r' : Record} {accessType : AccessType}
    (h : r.selectedFor accessType = some r') : r'.schema = r.schema := by
  unfold Record.selectedFor at h
  split at h
  next => exact Record.setVisible_schema h
  next =>
    cases h
    rfl

/-- The `k`-th byte is one of those of a record that is longer. -/
theorem GAddr.place_mem {a : GAddr} {k n : ℕ} (hk : k < n) (hn : n ≤ 2 ^ 64) :
    a.place k ∈ a.bytes n :=
  GAddr.mem_bytes hk (hk.trans_le hn)

theorem RecordSchema.getSchemaSize_le (s : RecordSchema) : s.getSchemaSize ≤ 2 ^ 64 :=
  s.columnOffset.isLt.le

theorem Record.mem_cells {r : Record} {addr : GAddr} {q : Place × BitVec 8}
    (h : q ∈ r.cells addr) : q.1 ∈ addr.bytes r.schema.getSchemaSize := by
  obtain ⟨k, -, rfl⟩ := List.mem_map.mp h
  exact GAddr.place_mem k.isLt r.schema.getSchemaSize_le

/-- What an access writes is locked exclusively. -/
theorem TxnAccess.mem_writes {a : TxnAccess} {q : Place × BitVec 8} (h : q ∈ a.writes) :
    a.lock.exclusive = true ∧ q.1 ∈ a.lock.bytes := by
  unfold TxnAccess.writes at h
  split at h
  next ht => exact ⟨by rw [TxnAccess.lock, ht]; rfl, Record.mem_cells h⟩
  next ht => exact ⟨by rw [TxnAccess.lock, ht]; rfl, Record.mem_cells h⟩
  next => cases h

/-! ## What the functions of the manager do to the party -/

namespace TransactionManager

variable {m m' : TransactionManager}

/-- A record is selected: the transaction is aborted, or has another lock. -/
theorem selectRecordCC_spec {schema : RecordSchema} {accessType : AccessType} {addr : GAddr}
    {answers : ℕ → ℤ} {junk : ℕ → BitVec 8}
    (h : m.selectRecordCC schema accessType addr answers junk = some m') :
    m.writes = [] ∧ m'.writes = [] ∧
      (tryLockRecord answers = true ∧ m'.reads = m.reads ∧
          m'.locks = m.locks ++ [⟨accessType.exclusive, addr, schema.getSchemaSize⟩] ∨
        m'.reads = [] ∧ m'.locks = m.locks) := by
  unfold selectRecordCC at h
  split at h
  next hpc =>
    cases h
    refine ⟨by rw [writes, hpc], ?_⟩
    split
    next htry =>
      refine ⟨rfl, .inl ⟨htry, ?_, ?_⟩⟩
      · show m.accessList.flatMap TxnAccess.read ++ [] = _
        rw [List.append_nil, reads, hpc]
      · rw [locks, locks, hpc]
    next =>
      refine ⟨rfl, .inr ⟨rfl, ?_⟩⟩
      rw [locks, locks, hpc]
      rfl
  next => cases h

/-- A byte is read of a record that is locked, or the record is complete. -/
theorem deserialize_spec {memory : Memory} (h : m.deserialize memory = some m') :
    m.writes = [] ∧ m'.writes = [] ∧ m'.locks = m.locks ∧
      ((∃ p ∈ m.party.locked, m'.reads = m.reads ++ [(p, Function.uncurry memory p)]) ∨
        m'.reads = m.reads) := by
  unfold deserialize at h
  split at h
  next accessType record addr read hpc =>
    refine ⟨by rw [writes, hpc], ?_⟩
    split at h
    next hlt =>
      cases h
      refine ⟨rfl, by rw [locks, locks, hpc], .inl ⟨addr.place read.length, ?_, ?_⟩⟩
      · refine mem_locked.mpr
          ⟨⟨accessType.exclusive, addr, record.schema.getSchemaSize⟩, ?_,
            GAddr.place_mem hlt record.schema.getSchemaSize_le⟩
        rw [locks, hpc]
        exact List.mem_append_right _ List.mem_cons_self
      · show m.accessList.flatMap TxnAccess.read ++ (read ++ [_]) = _
        rw [← List.append_assoc, reads, hpc]
    next =>
      simp only [newAccess, Option.bind_eq_bind, Option.bind_eq_some_iff, Option.pure_def,
        Option.some.injEq] at h
      obtain ⟨record', hvisible, accesses, ⟨-, -, rfl⟩, rfl⟩ := h
      have hschema := Record.selectedFor_schema hvisible
      refine ⟨rfl, ?_, .inr ?_⟩
      · show (m.accessList ++ [_]).map TxnAccess.lock = _
        rw [List.map_append, locks, hpc, List.map_singleton, TxnAccess.lock, hschema]
      · show (m.accessList ++ [_]).flatMap TxnAccess.read = _
        rw [List.flatMap_append, List.flatMap_singleton, reads, hpc]
  next => cases h

/-- A column of a copy is changed. -/
theorem setColumn_spec {i colId : ℕ} {src : ℕ → BitVec 8}
    (h : m.setColumn i colId src = some m') : m'.party = m.party := by
  unfold setColumn at h
  split at h
  next a hpc ha =>
    simp only [Option.bind_eq_bind, Option.bind_eq_some_iff, Option.pure_def,
      Option.some.injEq] at h
    obtain ⟨record, hrecord, rfl⟩ := h
    obtain ⟨hi, hget⟩ := List.getElem?_eq_some_iff.mp ha
    refine party_congr ?_ ?_ ?_
    · rw [reads, reads, hpc]
      show List.flatMap _ (m.accessList.set i _) = _
      rw [List.flatMap_def, List.flatMap_def, List.map_set]
      refine congrArg List.flatten (List.ext_getElem? fun j => ?_)
      rcases eq_or_ne i j with rfl | hne
      · rw [List.getElem?_set_self (by rwa [List.length_map]), List.getElem?_map, ha]
        rfl
      · rw [List.getElem?_set_ne hne]
    · rw [writes, writes, hpc]
    · rw [locks, locks, hpc]
      show List.map _ (m.accessList.set i _) = _
      rw [List.map_set]
      refine List.ext_getElem? fun j => ?_
      rcases eq_or_ne i j with rfl | hne
      · rw [List.getElem?_set_self (by rwa [List.length_map]), List.getElem?_map, ha,
          Option.map_some, TxnAccess.lock, TxnAccess.lock, Record.setColumn_schema hrecord]
      · rw [List.getElem?_set_ne hne]
  next => cases h

/-- A new record: a lock for it, and it is in the log. -/
theorem newRecord_spec {record : Record} {addr : GAddr} {write : Bool}
    {x : TransactionManager × Entry Place (BitVec 8)}
    (h : m.newRecord record addr write = some x) :
    m.writes = [] ∧ x.1.reads = m.reads ∧
      x.1.locks = m.locks ++ [⟨true, addr, record.schema.getSchemaSize⟩] ∧
      x.1.writes = x.2.writes ∧ x.2.reads = [] ∧
      ∀ q ∈ x.2.writes, q.1 ∈ addr.bytes record.schema.getSchemaSize := by
  unfold newRecord at h
  split at h
  next hpc =>
    cases h
    refine ⟨by rw [writes, hpc], by rw [reads, reads, hpc], by rw [locks, locks, hpc], rfl, rfl, ?_⟩
    intro q hq
    exact Record.mem_cells (List.mem_of_mem_drop hq)
  next => cases h

/-- A byte of it is written. -/
theorem serialize_spec {x : TransactionManager × (Place × BitVec 8)}
    (h : m.serialize = some x) :
    m.writes = x.2 :: x.1.writes ∧ x.1.reads = m.reads ∧ x.1.locks = m.locks := by
  unfold serialize at h
  split at h
  next record addr k hpc =>
    obtain ⟨p, hp, rfl⟩ := Option.map_eq_some_iff.mp h
    refine ⟨?_, by rw [reads, reads, hpc], by rw [locks, locks, hpc]⟩
    obtain ⟨hk, rfl⟩ := List.getElem?_eq_some_iff.mp hp
    rw [writes, hpc]
    exact List.drop_eq_getElem_cons hk
  next => cases h

/-- It becomes an access when it is written. -/
theorem insertRecord_spec {answers : ℕ → ℤ} (h : m.insertRecord answers = some m') :
    m'.party = m.party := by
  unfold insertRecord at h
  split at h
  next record addr k hpc =>
    simp only [newAccess, Option.bind_eq_bind, Option.bind_eq_some_iff, Option.guard_eq_some',
      Option.pure_def, Option.some.injEq] at h
    obtain ⟨-, ⟨hk, -⟩, record', hvisible, accesses, ⟨-, -, rfl⟩, rfl⟩ := h
    refine party_congr ?_ ?_ ?_
    · rw [reads, reads, hpc]
      show (m.accessList ++ [_]).flatMap TxnAccess.read = _
      rw [List.flatMap_append, List.flatMap_singleton, List.append_nil]
    · rw [writes, writes, hpc]
      exact (List.drop_eq_nil_of_le (List.getElem?_eq_none_iff.mp hk)).symm
    · rw [locks, locks, hpc]
      show (m.accessList ++ [_]).map TxnAccess.lock = _
      rw [List.map_append, List.map_singleton, TxnAccess.lock, Record.setVisible_schema hvisible]
      rfl
  next => cases h

/-- The transaction is in the log. -/
theorem commitTransaction_spec {x : TransactionManager × Entry Place (BitVec 8)}
    (h : m.commitTransaction = some x) :
    m.writes = [] ∧ x.2.reads = m.reads ∧ x.1.reads = [] ∧ x.1.writes = x.2.writes ∧
      x.1.locks = m.locks ∧
      ∀ q ∈ x.2.writes, q.1 ∈ m.party.owned := by
  unfold commitTransaction at h
  split at h
  next hpc =>
    cases h
    refine ⟨by rw [writes, hpc], by rw [reads, hpc], rfl, remaining_zero _, ?_, ?_⟩
    · rw [locks, locks, hpc]
      rfl
    · intro q hq
      obtain ⟨a, ha, hqa⟩ := List.mem_flatMap.mp hq
      obtain ⟨hex, hmem⟩ := TxnAccess.mem_writes hqa
      refine ⟨a.lock, ?_, hex, hmem⟩
      rw [locks, hpc]
      exact List.mem_map_of_mem ha
  next => cases h

/-- What is left to write is locked. -/
theorem mem_owned_of_remaining {i k : ℕ} (hpc : m.pc = .committing i k) {q : Place × BitVec 8}
    (h : q ∈ (m.accessList.drop i).flatMap TxnAccess.writes) : q.1 ∈ m.party.owned := by
  obtain ⟨a, ha, hqa⟩ := List.mem_flatMap.mp h
  obtain ⟨hex, hmem⟩ := TxnAccess.mem_writes hqa
  refine ⟨a.lock, ?_, hex, hmem⟩
  rw [locks, hpc]
  exact List.mem_map_of_mem ha

/-- A byte is written, or a record is unlocked that nothing is left to write of. -/
theorem commitStep_spec {x : TransactionManager × Option (Place × BitVec 8)}
    (h : m.commitStep = some x) :
    m.reads = [] ∧ x.1.reads = [] ∧
      ((∃ p, x.2 = some p ∧ m.writes = p :: x.1.writes ∧ x.1.locks = m.locks) ∨
        x.2 = none ∧ x.1.writes = m.writes ∧ x.1.locks ⊆ m.locks ∧
          ∀ q ∈ x.1.writes, q.1 ∈ x.1.party.owned) := by
  unfold commitStep at h
  split at h
  next i k hpc =>
    refine ⟨by rw [reads, hpc], ?_⟩
    split at h
    next a ha =>
      obtain ⟨hi, rfl⟩ := List.getElem?_eq_some_iff.mp ha
      have hdrop := List.drop_eq_getElem_cons hi
      split at h
      next p hp =>
        cases h
        obtain ⟨hk, rfl⟩ := List.getElem?_eq_some_iff.mp hp
        refine ⟨rfl, .inl ⟨_, rfl, ?_, by rw [locks, locks, hpc]⟩⟩
        rw [writes, writes, hpc]
        show remaining (m.accessList.drop i) k = _ :: remaining (m.accessList.drop i) (k + 1)
        rw [hdrop, remaining, remaining, List.drop_eq_getElem_cons hk]
        rfl
      next hp =>
        cases h
        refine ⟨rfl, .inr ⟨rfl, ?_, ?_, ?_⟩⟩
        · rw [writes, writes, hpc]
          show remaining (m.accessList.drop (i + 1)) 0 = remaining (m.accessList.drop i) k
          rw [hdrop, remaining_zero, remaining,
            List.drop_eq_nil_of_le (List.getElem?_eq_none_iff.mp hp)]
          rfl
        · rw [locks, locks, hpc]
          show List.map _ (m.accessList.drop (i + 1)) ⊆ List.map TxnAccess.lock (m.accessList.drop i)
          rw [hdrop]
          exact List.subset_cons_self _ _
        · intro q hq
          refine mem_owned_of_remaining (i := i + 1) (k := 0) rfl ?_
          rw [← remaining_zero]
          exact hq
    next ha =>
      cases h
      have hdrop := List.drop_eq_nil_of_le (List.getElem?_eq_none_iff.mp ha)
      refine ⟨rfl, .inr ⟨rfl, ?_, List.nil_subset _, ?_⟩⟩
      · rw [writes, writes, hpc]
        show [] = remaining (m.accessList.drop i) k
        rw [hdrop]
        rfl
      · rintro q ⟨⟩
  next => cases h

/-- A record of a transaction that is aborted is unlocked. -/
theorem abortStep_spec (h : m.abortStep = some m') :
    m.writes = [] ∧ m'.writes = [] ∧ m'.reads = [] ∧ m'.locks ⊆ m.locks := by
  unfold abortStep at h
  split at h
  next i hpc =>
    cases h
    refine ⟨by rw [writes, hpc], ?_⟩
    split
    next hi =>
      refine ⟨rfl, rfl, ?_⟩
      rw [locks, locks, hpc]
      show List.map _ (m.accessList.drop (i + 1)) ⊆ List.map TxnAccess.lock (m.accessList.drop i)
      rw [List.drop_eq_getElem_cons hi]
      exact List.subset_cons_self _ _
    next => exact ⟨rfl, rfl, List.nil_subset _⟩
  next => cases h

end TransactionManager

/-! ## Runs -/

theorem Memory.uncurry_putByte (m : Memory) (p : Place × BitVec 8) :
    Function.uncurry (m.putByte p) = Function.update (Function.uncurry m) p.1 p.2 :=
  Function.uncurry_curry _

namespace Threads

variable {T : Type} [DecidableEq T] {s s' : Threads T} {t : T} {m : TransactionManager}
  {m₀ : Memory}

/-- The parties that the threads are. -/
def parties (s : Threads T) (t : T) : Party Place (BitVec 8) :=
  (s.managers t).party

/-- The transactions are isolated from each other. -/
def AreIsolated (m₀ : Memory) (s : Threads T) : Prop :=
  Isolated (Function.uncurry m₀) s.log (Function.uncurry s.memory) s.parties

theorem parties_set_of_ne (t' : T) (h : t' ≠ t) : (s.set t m).parties t' = s.parties t' :=
  congrArg TransactionManager.party (Function.update_of_ne h _ _)

theorem parties_set_self : (s.set t m).parties t = m.party :=
  congrArg TransactionManager.party (Function.update_self _ _ _)

/-- A thread whose party stays as it is. -/
theorem AreIsolated.still (h : s.AreIsolated m₀) (hm : m.party = s.parties t) :
    (s.set t m).AreIsolated m₀ := by
  have hparties : (s.set t m).parties = s.parties := by
    funext t'
    rcases eq_or_ne t' t with rfl | hne
    · rw [parties_set_self, hm]
    · exact parties_set_of_ne t' hne
  unfold AreIsolated
  rw [hparties]
  exact h

omit [DecidableEq T] in
/-- Another lock that is compatible with those of the other threads. -/
theorem AreIsolated.free (h : s.AreIsolated m₀) {l : RecordLock}
    (hl : m.locks = (s.managers t).locks ++ [l])
    (hc : ∀ t', t' ≠ t → ∀ l' ∈ (s.managers t').locks, l.Compatible l') :
    ∀ t', t' ≠ t → ∀ x, (x ∈ m.party.owned → x ∉ (s.parties t').locked) ∧
      (x ∈ m.party.shared → x ∉ (s.parties t').owned) := by
  intro t' hne x
  refine ⟨?_, ?_⟩
  · rintro ⟨l', hl', hex, hx⟩ hx'
    rw [hl] at hl'
    rcases List.mem_append.mp hl' with hl' | hl'
    · exact h.apart t t' hne.symm x ⟨l', hl', hex, hx⟩ hx'
    · rw [List.mem_singleton.mp hl'] at hex hx
      obtain ⟨k, hk, hxk⟩ := TransactionManager.mem_locked.mp hx'
      exact Set.disjoint_left.mp (hc t' hne k hk (.inl hex)) hx hxk
  · rintro ⟨l', hl', hex, hx⟩ hx'
    rw [hl] at hl'
    rcases List.mem_append.mp hl' with hl' | hl'
    · exact h.apart t' t hne x hx' (.inl ⟨l', hl', hex, hx⟩)
    · rw [List.mem_singleton.mp hl'] at hx
      obtain ⟨k, hk, hexk, hxk⟩ := hx'
      exact Set.disjoint_left.mp (hc t' hne k hk (.inr hexk)) hx hxk

/-- More locks lock more. -/
theorem party_mono {m' : TransactionManager} (hl : m.locks ⊆ m'.locks) :
    m.party.shared ⊆ m'.party.shared ∧ m.party.owned ⊆ m'.party.owned := by
  refine ⟨?_, ?_⟩
  · rintro x ⟨l, hm, hx⟩
    exact ⟨l, hl hm, hx⟩
  · rintro x ⟨l, hm, hx⟩
    exact ⟨l, hl hm, hx⟩

theorem AreIsolated.select (h : s.AreIsolated m₀) {schema : RecordSchema} {accessType : AccessType}
    {addr : GAddr} {answers : ℕ → ℤ} {junk : ℕ → BitVec 8}
    (hok : s.Contract (.select t schema accessType addr answers junk))
    (hm : (s.managers t).selectRecordCC schema accessType addr answers junk = some m) :
    (s.set t m).AreIsolated m₀ := by
  obtain ⟨hw, hw', ⟨htry, hr, hl⟩ | ⟨hr, hl⟩⟩ := TransactionManager.selectRecordCC_spec hm
  · obtain ⟨hs, ho⟩ := party_mono (hl ▸ List.subset_append_left _ _ :
      (s.managers t).locks ⊆ m.locks)
    refine Isolated.lock (t := t) h parties_set_of_ne ?_ ?_ ?_ ?_ ?_
    · rw [parties_set_self]
      exact hr
    · rw [parties_set_self]
      exact hw'.trans hw.symm
    · rw [parties_set_self]
      exact hs
    · rw [parties_set_self]
      exact ho
    · rw [parties_set_self]
      exact h.free hl (hok htry)
  · -- the transaction is aborted
    obtain ⟨hs, ho⟩ := party_mono (hl ▸ List.Subset.refl _ : m.locks ⊆ (s.managers t).locks)
    refine Isolated.unlock (t := t) h parties_set_of_ne ?_ ?_ ?_ ?_ ?_
    · rw [parties_set_self]
      exact hs
    · rw [parties_set_self]
      exact ho
    · rw [parties_set_self]
      show ∀ q ∈ m.reads, _
      rw [hr]
      rintro q ⟨⟩
    · rw [parties_set_self]
      exact hw'.trans hw.symm
    · show ∀ q ∈ (s.managers t).writes, _
      rw [hw]
      rintro q ⟨⟩

theorem AreIsolated.deserialize (h : s.AreIsolated m₀)
    (hm : (s.managers t).deserialize s.memory = some m) : (s.set t m).AreIsolated m₀ := by
  obtain ⟨hw, hw', hl, ⟨p, hp, hr⟩ | hr⟩ := TransactionManager.deserialize_spec hm
  · refine Isolated.read (t := t) h parties_set_of_ne hp hw ?_
    rw [parties_set_self, TransactionManager.party, hr, hw', hl]
    show _ = Party.mk _ (s.managers t).writes _ _
    rw [hw]
    rfl
  · exact h.still (TransactionManager.party_congr hr (hw'.trans hw.symm) hl)

theorem AreIsolated.newRecord (h : s.AreIsolated m₀) {record : Record} {addr : GAddr}
    {write : Bool} (hok : s.Contract (.newRecord t record addr write))
    {x : TransactionManager × Entry Place (BitVec 8)}
    (hx : (s.managers t).newRecord record addr write = some x) :
    AreIsolated m₀ { s.set t x.1 with log := s.log ++ [x.2] } := by
  obtain ⟨hw, hr, hl, hw', hr', hin⟩ := TransactionManager.newRecord_spec hx
  obtain ⟨hs, ho⟩ := party_mono (hl ▸ List.subset_append_left _ _ :
    (s.managers t).locks ⊆ x.1.locks)
  -- first the lock, then the entry in the log
  let c := Function.update s.parties t { x.1.party with writes := [] }
  have hself : c t = { x.1.party with writes := [] } := Function.update_self _ _ _
  have hother : ∀ t', t' ≠ t → c t' = s.parties t' :=
    fun t' hne => Function.update_of_ne hne _ _
  have hlock : Isolated (Function.uncurry m₀) s.log (Function.uncurry s.memory) c := by
    refine Isolated.lock h hother ?_ ?_ ?_ ?_ ?_
    · rw [hself]
      exact hr
    · rw [hself]
      exact hw.symm
    · rw [hself]
      exact hs
    · rw [hself]
      exact ho
    · rw [hself]
      exact h.free hl fun t' _ => hok t'
  refine hlock.enter (t := t) (r := x.1.reads) ?_ ?_ ?_ ?_ ?_ ?_
  · intro t' hne
    rw [hother t' hne]
    exact parties_set_of_ne t' hne
  · rw [hself]
  · rw [hr']
    rintro q ⟨⟩
  · intro q hq
    rw [hself]
    refine ⟨⟨true, addr, record.schema.getSchemaSize⟩, ?_, rfl, hin q hq⟩
    rw [hl]
    exact List.mem_append_right _ List.mem_cons_self
  · intro q hq
    rw [hself]
    refine ⟨hq, fun q' hq' heq => ?_⟩
    rw [hr] at hq
    obtain ⟨l, hlm, hql⟩ := TransactionManager.mem_locked.mp ((h.sound t).reads q hq)
    exact Set.disjoint_left.mp (hok t l hlm (.inl rfl)) (hin q' hq') (heq ▸ hql)
  · rw [hself]
    show (s.set t x.1).parties t = _
    rw [parties_set_self, ← hw']
    rfl

theorem AreIsolated.serialize (h : s.AreIsolated m₀)
    {x : TransactionManager × (Place × BitVec 8)} (hx : (s.managers t).serialize = some x) :
    AreIsolated m₀ { s.set t x.1 with memory := s.memory.putByte x.2 } := by
  obtain ⟨hw, hr, hl⟩ := TransactionManager.serialize_spec hx
  unfold AreIsolated
  rw [Memory.uncurry_putByte]
  refine Isolated.write (t := t) h parties_set_of_ne hw ?_
  show (s.set t x.1).parties t = _
  rw [parties_set_self, TransactionManager.party, hr, hl]
  rfl

theorem AreIsolated.commit (h : s.AreIsolated m₀)
    {x : TransactionManager × Entry Place (BitVec 8)}
    (hx : (s.managers t).commitTransaction = some x) :
    AreIsolated m₀ { s.set t x.1 with log := s.log ++ [x.2] } := by
  obtain ⟨hw, hr, hr', hw', hl, howned⟩ := TransactionManager.commitTransaction_spec hx
  refine Isolated.enter (t := t) (r := []) h parties_set_of_ne hw ?_ howned ?_ ?_
  · rw [hr]
    exact fun q hq => hq
  · rintro q ⟨⟩
  · show (s.set t x.1).parties t = _
    rw [parties_set_self, TransactionManager.party, hr', hw', hl]
    rfl

theorem AreIsolated.commitStep (h : s.AreIsolated m₀)
    {x : TransactionManager × Option (Place × BitVec 8)}
    (hx : (s.managers t).commitStep = some x) :
    AreIsolated m₀ { s.set t x.1 with memory := x.2.elim s.memory s.memory.putByte } := by
  obtain ⟨hr, hr', ⟨p, hp, hw, hl⟩ | ⟨hp, hw, hl, hkeep⟩⟩ := TransactionManager.commitStep_spec hx
  · unfold AreIsolated
    rw [hp, Option.elim, Memory.uncurry_putByte]
    refine Isolated.write (t := t) h parties_set_of_ne hw ?_
    show (s.set t x.1).parties t = _
    rw [parties_set_self, TransactionManager.party, hr', hl, ← hr]
    rfl
  · obtain ⟨hs, ho⟩ := party_mono hl
    unfold AreIsolated
    rw [hp, Option.elim]
    refine Isolated.unlock (t := t) h parties_set_of_ne ?_ ?_ ?_ ?_ ?_
    · rw [← parties_set_self (s := s) (t := t)] at hs
      exact hs
    · rw [← parties_set_self (s := s) (t := t)] at ho
      exact ho
    · show ∀ q ∈ ((s.set t x.1).parties t).reads, _
      rw [parties_set_self]
      show ∀ q ∈ x.1.reads, _
      rw [hr']
      rintro q ⟨⟩
    · show ((s.set t x.1).parties t).writes = _
      rw [parties_set_self]
      exact hw
    · show ∀ q ∈ (s.managers t).writes, q.1 ∈ ((s.set t x.1).parties t).owned
      rw [parties_set_self, ← hw]
      exact hkeep

theorem AreIsolated.abortStep (h : s.AreIsolated m₀)
    (hm : (s.managers t).abortStep = some m) : (s.set t m).AreIsolated m₀ := by
  obtain ⟨hw, hw', hr, hl⟩ := TransactionManager.abortStep_spec hm
  obtain ⟨hs, ho⟩ := party_mono hl
  refine Isolated.unlock (t := t) h parties_set_of_ne ?_ ?_ ?_ ?_ ?_
  · rw [parties_set_self]
    exact hs
  · rw [parties_set_self]
    exact ho
  · rw [parties_set_self]
    show ∀ q ∈ m.reads, _
    rw [hr]
    rintro q ⟨⟩
  · rw [parties_set_self]
    exact hw'.trans hw.symm
  · show ∀ q ∈ (s.managers t).writes, _
    rw [hw]
    rintro q ⟨⟩

/-- A step keeps the transactions isolated. -/
theorem AreIsolated.step {a : TransactionAction T} (h : s.AreIsolated m₀) (hok : s.Contract a)
    (hs : s.step a = some s') : s'.AreIsolated m₀ := by
  cases a with
  | select t schema accessType addr answers junk =>
      obtain ⟨m, hm, rfl⟩ := Option.map_eq_some_iff.mp hs
      exact h.select hok hm
  | deserialize t =>
      obtain ⟨m, hm, rfl⟩ := Option.map_eq_some_iff.mp hs
      exact h.deserialize hm
  | setColumn t i colId src =>
      obtain ⟨m, hm, rfl⟩ := Option.map_eq_some_iff.mp hs
      exact h.still (TransactionManager.setColumn_spec hm)
  | newRecord t record addr write =>
      obtain ⟨x, hx, rfl⟩ := Option.map_eq_some_iff.mp hs
      exact h.newRecord hok hx
  | serialize t =>
      obtain ⟨x, hx, rfl⟩ := Option.map_eq_some_iff.mp hs
      exact h.serialize hx
  | insert t answers =>
      obtain ⟨m, hm, rfl⟩ := Option.map_eq_some_iff.mp hs
      exact h.still (TransactionManager.insertRecord_spec hm)
  | commit t =>
      obtain ⟨x, hx, rfl⟩ := Option.map_eq_some_iff.mp hs
      exact h.commit hx
  | commitStep t =>
      obtain ⟨x, hx, rfl⟩ := Option.map_eq_some_iff.mp hs
      exact h.commitStep hx
  | abortStep t =>
      obtain ⟨m, hm, rfl⟩ := Option.map_eq_some_iff.mp hs
      exact h.abortStep hm

omit [DecidableEq T] in
theorem Init.areIsolated (h : s.Init m₀) : s.AreIsolated m₀ := by
  unfold AreIsolated
  rw [h.memory, h.log]
  refine Isolated.start ?_ ?_ ?_
  · intro t
    rw [parties, h.managers]
    rfl
  · intro t
    rw [parties, h.managers]
    rfl
  · intro t x
    rw [parties, h.managers]
    rintro ⟨l, ⟨⟩, -⟩

/-- As long as the locks keep their contract, the transactions that have committed are serializable,
in the order in which the commits have begun: each has read what the ones before it have written.
Memory is what they have made of the first one, up to what is still being written; and what a
transaction in progress has read is what it would read now. -/
theorem serializable (h : (transactions T m₀).ReachableWhen Contract s) :
    Serial (Function.uncurry m₀) s.log ∧
      ((∀ t, (s.managers t).writes = []) →
        Function.uncurry s.memory = replay (Function.uncurry m₀) s.log) ∧
      ∀ t, ∀ q ∈ (s.managers t).reads, replay (Function.uncurry m₀) s.log q.1 = q.2 := by
  have hi : s.AreIsolated m₀ :=
    h.invariant (fun s (hs : s.Init m₀) => hs.areIsolated) fun s a s' _ hok hi hs => hi.step hok hs
  exact ⟨hi.serial, hi.memory, fun t => (hi.sound t).current⟩

/-! ## Two threads -/

/-- The contract as a check: a record that is selected is on a node where the other threads have
locked nothing, or nobody excludes anybody. -/
def elsewhere (s : Threads (Fin 2)) : TransactionAction (Fin 2) → Bool
  | .select t _ accessType addr _ _ => (s.managers t.rev).locks.all fun l =>
      !accessType.exclusive && !l.exclusive || decide (addr.nodeID ≠ l.addr.nodeID)
  | .newRecord .. => false
  | _ => true

theorem contract_of_elsewhere (s : Threads (Fin 2)) (a : TransactionAction (Fin 2))
    (h : s.elsewhere a) : s.Contract a := by
  cases a with
  | select t schema accessType addr answers junk =>
      intro _ t' hne l hl hex
      have hother : ∀ t t' : Fin 2, t' ≠ t → t' = t.rev := by decide
      have hone := List.all_eq_true.mp h l (hother t t' hne ▸ hl)
      rcases Bool.or_eq_true_iff.mp hone with hshared | hnode
      · obtain ⟨ha, hl⟩ := Bool.and_eq_true_iff.mp hshared
        rcases hex with hex | hex
        · rw [show accessType.exclusive = true from hex] at ha
          cases ha
        · rw [hex] at hl
          cases hl
      · refine Set.disjoint_left.mpr ?_
        rintro p ⟨hp, -⟩ ⟨hp', -⟩
        exact of_decide_eq_true hnode (hp.symm.trans hp')
  | newRecord => cases h
  | _ => trivial

/-- A thread selects a row at an address of a node; the lock of `DSM` is granted. -/
def selects (t : Fin 2) (accessType : AccessType) (addr : GAddr) :
    List (TransactionAction (Fin 2)) :=
  .select t .intAndMeta accessType addr (fun _ => 0) (fun _ => 0) ::
    List.replicate 6 (.deserialize t)

/-- A thread sets the column of the row that it has selected, and begins to commit. -/
def changes (t : Fin 2) (b : BitVec 8) : List (TransactionAction (Fin 2)) :=
  [.setColumn t 0 0 fun _ => b, .commit t]

/-- At the start. -/
def fresh : Threads (Fin 2) :=
  ⟨fun _ _ => 7, fun _ => ⟨[], .running⟩, []⟩

theorem init_fresh : fresh.Init fun _ _ => 7 :=
  ⟨rfl, fun _ => rfl, rfl⟩

/-- A thread reads a row while another one commits, and then the row that this one has changed. -/
theorem serializable_two : ∃ s : Threads (Fin 2),
    s.log.map (fun e => e.reads.map Prod.snd) = [[7, 7, 7, 7, 7], [7, 7, 7, 7, 7, 9, 9, 9, 9, 7]] ∧
      Serial (Function.uncurry fun _ _ => 7) s.log := by
  obtain ⟨s, hr, hv⟩ := TransitionSystem.exists_reachableWhen
    (T := transactions (Fin 2) fun _ _ => 7)
    (f := fun s => s.log.map fun e => e.reads.map Prod.snd)
    (v := [[7, 7, 7, 7, 7], [7, 7, 7, 7, 7, 9, 9, 9, 9, 7]])
    (selects 0 .readWrite ⟨4096, 0, 0⟩ ++ changes 0 9 ++ List.replicate 3 (.commitStep 0) ++
      selects 1 .readOnly ⟨0, 1, 0⟩ ++ List.replicate 3 (.commitStep 0) ++
      selects 1 .readOnly ⟨4096, 0, 0⟩ ++ [.commit 1, .commitStep 0])
    contract_of_elsewhere init_fresh (by decide +kernel)
  exact ⟨s, hv, (serializable hr).1⟩

/-- The locks of `DSM` let two threads change one row at the same time. -/
theorem update_lost : ∃ s : Threads (Fin 2),
    (transactions (Fin 2) fun _ _ => 7).Reachable s ∧
      ¬ Serial (Function.uncurry fun _ _ => 7) s.log := by
  obtain ⟨s, hr, hv⟩ := TransitionSystem.exists_reachable
    (T := transactions (Fin 2) fun _ _ => 7)
    (f := fun s => isSerial (Function.uncurry fun _ _ => 7) s.log) (v := false)
    (selects 0 .readWrite ⟨4096, 0, 0⟩ ++ selects 1 .readWrite ⟨4096, 0, 0⟩ ++ changes 0 8 ++
      changes 1 9)
    init_fresh (by decide +kernel)
  refine ⟨s, hr, fun hserial => ?_⟩
  rw [serial_iff.mp hserial] at hv
  cases hv

end Threads

end Database

end Ting
