/-
# `Ting.Hls.DirEntry` — what an entry looks like between two transactions

An entry's bitmap, count and state are updated separately, partly by a request and partly
by the acknowledgements that complete it.  `DirDataE.Consistent` says how the three belong
together in every state; in a transient state the answer depends on the transaction that
is pending, and `Txn.Tracks` relates the entry to its record.  Three theorems say that
`transaction` keeps this: for a request that completes at once (`Consistent.request`), for
one that opens a transaction (`Txn.Tracks.start`), and for an acknowledgement
(`Txn.Tracks.ack`).
-/
import Ting.Hls.Fabric
import Mathlib.Data.Finset.Card

namespace Ting

/-! ## The set of replicas -/

namespace DirDataE

theorem mem_bits {e : DirDataE} {n : NodeId} : n ∈ e.bits ↔ e.dirGblockBitmap n = true := by
  simp [bits]

theorem not_mem_bits {e : DirDataE} {n : NodeId} :
    n ∉ e.bits ↔ e.dirGblockBitmap n = false := by
  simp [bits]

@[simp] theorem bits_setBit_true (e : DirDataE) (n : NodeId) :
    (e.setBit n true).bits = insert n e.bits := by
  ext k
  by_cases hk : k = n
  · subst hk; simp [mem_bits, setBit]
  · simp [mem_bits, setBit, hk]

@[simp] theorem bits_setBit_false (e : DirDataE) (n : NodeId) :
    (e.setBit n false).bits = e.bits.erase n := by
  ext k
  by_cases hk : k = n
  · subst hk; simp [mem_bits, setBit]
  · simp [mem_bits, setBit, hk]

@[simp] theorem bits_setAgentAddr (e : DirDataE) (n : NodeId) (a : Addr) :
    (e.setAgentAddr n a).bits = e.bits := rfl

@[simp] theorem bits_withState (e : DirDataE) (st : RawState) :
    ({ e with state := st }).bits = e.bits := rfl

@[simp] theorem bits_withCount (e : DirDataE) (c : BitVec 8) :
    ({ e with replicaCount := c }).bits = e.bits := rfl

@[simp] theorem bits_withStateCount (e : DirDataE) (st : RawState) (c : BitVec 8) :
    ({ e with state := st, replicaCount := c }).bits = e.bits := rfl

@[simp] theorem state_setBit (e : DirDataE) (n : NodeId) (v : Bool) :
    (e.setBit n v).state = e.state := rfl

@[simp] theorem state_setAgentAddr (e : DirDataE) (n : NodeId) (a : Addr) :
    (e.setAgentAddr n a).state = e.state := rfl

@[simp] theorem replicaCount_setBit (e : DirDataE) (n : NodeId) (v : Bool) :
    (e.setBit n v).replicaCount = e.replicaCount := rfl

@[simp] theorem replicaCount_setAgentAddr (e : DirDataE) (n : NodeId) (a : Addr) :
    (e.setAgentAddr n a).replicaCount = e.replicaCount := rfl

theorem card_bits_le (e : DirDataE) : e.bits.card ≤ 8 :=
  le_trans (Finset.card_le_univ _) (by decide)

end DirDataE

/-! ## The count -/

theorem count_succ {c : BitVec 8} {k : ℕ} (h : c.toNat = k) (hk : k ≤ 8) :
    (c + 1).toNat = k + 1 := by
  rw [BitVec.toNat_add, h]
  show (k + 1) % 256 = k + 1
  omega

theorem count_pred {c : BitVec 8} {k : ℕ} (h : c.toNat = k) (hk : 1 ≤ k) :
    (c - 1).toNat = k - 1 := by
  have := c.isLt
  rw [BitVec.toNat_sub, h]
  show (256 - 1 + k) % 256 = k - 1
  omega

theorem count_eq {c : BitVec 8} {k : ℕ} (h : c.toNat = k) (v : ℕ) (hv : v < 256) :
    c = BitVec.ofNat 8 v ↔ k = v := by
  rw [← BitVec.toNat_inj, h, BitVec.toNat_ofNat, Nat.mod_eq_of_lt hv]

/-! ## Consistent entries -/

/-- The entry `e` while the transaction recorded in `T` is pending.  A request to a dirty
owner leaves bitmap and count alone until its one acknowledgement.  A write miss on a
shared block counts the acknowledgements missing, and the requester's cell is set with the
first one.  An upgrade counts the requester as well, whose cell was set all along. -/
structure Txn.Tracks (T : Txn) (e : DirDataE) : Prop where
  state : e.state = T.kind.state
  req : T.req ∉ T.targets
  nodup : T.acked.Nodup
  acked : ∀ n ∈ T.acked, n ∈ T.targets
  missing : T.missing.Nonempty
  aggacks : T.aggacks = 0
  shape : match T.kind with
    | .readMissDirty | .writeMissDirty =>
        T.acked = [] ∧ T.targets.card = 1 ∧ e.bits = T.targets ∧ e.replicaCount = 1
    | .writeMissShared =>
        e.bits = T.missing ∪ (if T.acked = [] then ∅ else {T.req}) ∧
          e.replicaCount.toNat = T.missing.card
    | .writeShared =>
        e.bits = insert T.req T.missing ∧ e.replicaCount.toNat = T.missing.card + 1

/-- Bitmap, count and state of an entry belong together; `T` is the record of the
transaction last started on the block. -/
def DirDataE.Consistent (e : DirDataE) (T : Option Txn) : Prop :=
  match e.state with
  | .sUnshared => e.bits = ∅ ∧ e.replicaCount = 0
  | .sShared => e.replicaCount.toNat = e.bits.card ∧ 1 ≤ e.bits.card
  | .sDirty => e.bits.card = 1 ∧ e.replicaCount = 1
  | .sToUnshared => False
  | .sToShared | .sToDirty => ∃ t, T = some t ∧ t.Tracks e

namespace DirDataE.Consistent

variable {e : DirDataE} {T : Option Txn}

theorem of_init (h : e.IsInit) : e.Consistent T := by
  obtain ⟨hs, hc, hb⟩ := h
  rw [Consistent, hs]
  exact ⟨Finset.filter_eq_empty_iff.mpr fun n _ => by simp [hb n], hc⟩

theorem unshared (h : e.Consistent T) (hs : e.state = .sUnshared) :
    e.bits = ∅ ∧ e.replicaCount = 0 := by
  simpa only [Consistent, hs] using h

theorem shared (h : e.Consistent T) (hs : e.state = .sShared) :
    e.replicaCount.toNat = e.bits.card ∧ 1 ≤ e.bits.card := by
  simpa only [Consistent, hs] using h

theorem dirty (h : e.Consistent T) (hs : e.state = .sDirty) :
    e.bits.card = 1 ∧ e.replicaCount = 1 := by
  simpa only [Consistent, hs] using h

theorem not_toUnshared (h : e.Consistent T) : e.state ≠ .sToUnshared := by
  intro hs
  simp only [Consistent, hs] at h

theorem tracks (h : e.Consistent T) (hs : e.state.isTransient) :
    ∃ t, T = some t ∧ t.Tracks e := by
  cases hst : e.state <;> simp only [hst, RawState.isTransient] at hs
  case sToShared => simpa only [Consistent, hst] using h
  case sToDirty => simpa only [Consistent, hst] using h
  all_goals cases hs

theorem of_tracks {t : Txn} (h : t.Tracks e) : e.Consistent (some t) := by
  have hs := h.state
  cases hk : t.kind <;> rw [hk] at hs <;> simp only [TxnKind.state] at hs <;>
    simp only [Consistent, hs] <;> exact ⟨t, rfl, h⟩

/-- In a stable state the record of the last transaction does not matter. -/
theorem of_stable {T' : Option Txn} (h : e.Consistent T) (hs : e.state.isTransient = false) :
    e.Consistent T' := by
  cases hst : e.state
  case sToUnshared => exact absurd hst h.not_toUnshared
  case sToShared | sToDirty => rw [hst] at hs; cases hs
  all_goals simp only [Consistent, hst] at h ⊢; exact h

/-- The owner of a dirty block is the one node the scan over the bitmap finds. -/
theorem dirty_owner (h : e.Consistent T) (hs : e.state = .sDirty) :
    ∃ o, e.bits = {o} ∧ (lastSet e.dirGblockBitmap).getD 0 = o := by
  obtain ⟨o, ho⟩ := Finset.card_eq_one.mp (h.dirty hs).1
  refine ⟨o, ho, ?_⟩
  have hmem : ∀ n, n ∈ e.bits ↔ n = o := by simp [ho]
  rw [lastSet_eq (o := o) (mem_bits.mp ((hmem o).mpr rfl))
    fun n hn => (hmem n).mp (mem_bits.mpr hn)]
  rfl

end DirDataE.Consistent

/-! ## Requests that complete at once -/

section Steps

open DirDataE

variable {r : DirRegs} {m : CtrlMsg} {e : DirDataE} {t : DirTick} {T : Option Txn}

theorem DirDataE.Consistent.add_reader (h : e.Consistent T)
    (hs : e.state = .sUnshared ∨ e.state = .sShared) {n : NodeId} (hn : n ∉ e.bits) (a : Addr) :
    ((({ e with state := .sShared, replicaCount := e.replicaCount + 1 }).setBit n
      true).setAgentAddr n a).Consistent T := by
  have hcount : e.replicaCount.toNat = e.bits.card := by
    rcases hs with hs | hs
    · rw [(h.unshared hs).1, (h.unshared hs).2]; rfl
    · exact (h.shared hs).1
  simp only [Consistent, state_setAgentAddr, state_setBit, replicaCount_setAgentAddr,
    replicaCount_setBit, bits_setAgentAddr, bits_setBit_true, bits_withStateCount,
    Finset.card_insert_of_notMem hn, count_succ hcount e.card_bits_le]
  exact ⟨trivial, Nat.le_add_left _ _⟩

theorem DirDataE.Consistent.drop_reader (h : e.Consistent T) (hs : e.state = .sShared)
    {n : NodeId} (hn : n ∈ e.bits) :
    (({ e with
        state := if e.replicaCount = 1 then .sUnshared else .sShared
        replicaCount := e.replicaCount - 1 }).setBit n false).Consistent T := by
  obtain ⟨hcount, hpos⟩ := h.shared hs
  have hpred := count_pred hcount hpos
  have hcard := Finset.card_erase_of_mem hn
  by_cases hone : e.replicaCount = 1
  · have h1 : e.bits.card = 1 := (count_eq hcount 1 (by decide)).mp hone
    have hz : e.bits.erase n = ∅ := Finset.card_eq_zero.mp (by omega)
    simp only [hone, if_true, Consistent, state_setBit, bits_setBit_false, bits_withStateCount,
      replicaCount_setBit]
    exact ⟨hz, rfl⟩
  · have h1 : e.bits.card ≠ 1 := fun hc => hone ((count_eq hcount 1 (by decide)).mpr hc)
    simp only [hone, if_false, Consistent, state_setBit, bits_setBit_false, bits_withStateCount,
      replicaCount_setBit, hpred, hcard]
    exact ⟨trivial, by omega⟩

/-- A request that opens no transaction leaves a consistent entry, and leaves the registers
as they were; when the entry is in a transient state it is not touched at all. -/
theorem DirDataE.Consistent.request (h : e.Consistent T) (hm : m.mtype.isRequest)
    (hc : DirCase r m e t) (hend : t.dirData.state.isTransient = e.state.isTransient) :
    t.dirData.Consistent T ∧ (e.state.isTransient → t.dirData = e) ∧ t.regs = r := by
  cases hc with
  | mCheckFail _ _ => exact ⟨h, fun _ => rfl, rfl⟩
  | bitmapCheckFail _ _ _ => exact ⟨h, fun _ => rfl, rfl⟩
  | readMiss hm hs hb =>
      refine ⟨h.add_reader hs (not_mem_bits.mpr hb) _, fun ht => ?_, rfl⟩
      rcases hs with hs | hs <;> rw [hs] at ht <;> cases ht
  | writeMiss hm hs hb =>
      refine ⟨?_, fun ht => absurd ht (by rw [hs]; decide), rfl⟩
      simp [DirTick.emit, Consistent, (h.unshared hs).1]
  | writeSharedOnly hm hs hb hc =>
      refine ⟨?_, fun ht => absurd ht (by rw [hs]; decide), rfl⟩
      obtain ⟨hcount, hpos⟩ := h.shared hs
      have hle : e.bits.card ≤ 1 := by
        rw [← hcount]
        simpa [BitVec.lt_def] using hc
      have hin : insert m.reqClineNodeID e.bits = e.bits :=
        Finset.insert_eq_of_mem (mem_bits.mpr hb)
      simp only [DirTick.emit, Consistent, state_setBit, bits_setBit_true, bits_withStateCount,
        hin, replicaCount_setBit]
      exact ⟨by omega, trivial⟩
  | evictShared hm hs hb =>
      exact ⟨h.drop_reader hs (mem_bits.mpr hb), fun ht => absurd ht (by rw [hs]; decide), rfl⟩
  | evictDirty hm hs hb =>
      refine ⟨?_, fun ht => absurd ht (by rw [hs]; decide), rfl⟩
      obtain ⟨hcard, hcount⟩ := h.dirty hs
      have hz : e.bits.erase m.reqClineNodeID = ∅ := by
        rw [← Finset.card_eq_zero, Finset.card_erase_of_mem (mem_bits.mpr hb), hcard]
      simp only [DirTick.emit, Consistent, state_setBit, bits_setBit_false, bits_withStateCount,
        hz, replicaCount_setBit, hcount]
      exact ⟨trivial, by decide⟩
  | readMissDirty hm hs hb a => rw [hs] at hend; cases hend
  | writeMissShared hm hs hb => rw [hs] at hend; cases hend
  | writeMissDirty hm hs hb a => rw [hs] at hend; cases hend
  | writeSharedNotonly hm hs hb hc => rw [hs] at hend; cases hend
  | ignored hm' hs => rw [hm] at hm'; cases hm'
  | readMissDirtyAckdata hm' hs => rw [hm'] at hm; cases hm
  | writeMissDirtyAck hm' hs => rw [hm'] at hm; cases hm
  | sharedAckLast hm' hs hc => rw [hm'] at hm; cases hm
  | sharedAckMore hm' hs hc => rw [hm'] at hm; cases hm
  | notonlyAckLast hm' hs hc => rw [hm'] at hm; cases hm
  | notonlyAckMore hm' hs hc => rw [hm'] at hm; cases hm

/-- In a transient state every request bounces. -/
theorem DirCase.bounces (hm : m.mtype.isRequest) (hc : DirCase r m e t)
    (ht : e.state.isTransient) : t.dirData = e := by
  have hno : ∀ s, e.state = s → s.isTransient = false → False := by
    intro s hs hf
    rw [hs, hf] at ht
    cases ht
  cases hc with
  | mCheckFail _ _ => rfl
  | bitmapCheckFail _ _ _ => rfl
  | readMiss hm hs hb => rcases hs with hs | hs <;> exact (hno _ hs rfl).elim
  | writeMiss hm hs hb => exact (hno _ hs rfl).elim
  | writeSharedOnly hm hs hb hc => exact (hno _ hs rfl).elim
  | evictShared hm hs hb => exact (hno _ hs rfl).elim
  | evictDirty hm hs hb => exact (hno _ hs rfl).elim
  | readMissDirty hm hs hb a => exact (hno _ hs rfl).elim
  | writeMissShared hm hs hb => exact (hno _ hs rfl).elim
  | writeMissDirty hm hs hb a => exact (hno _ hs rfl).elim
  | writeSharedNotonly hm hs hb hc => exact (hno _ hs rfl).elim
  | ignored hm' hs => rfl
  | readMissDirtyAckdata hm' hs => rw [hm'] at hm; cases hm
  | writeMissDirtyAck hm' hs => rw [hm'] at hm; cases hm
  | sharedAckLast hm' hs hc => rw [hm'] at hm; cases hm
  | sharedAckMore hm' hs hc => rw [hm'] at hm; cases hm
  | notonlyAckLast hm' hs hc => rw [hm'] at hm; cases hm
  | notonlyAckMore hm' hs hc => rw [hm'] at hm; cases hm

/-- Such a request is answered at once. -/
theorem DirCase.answer (hm : m.mtype.isRequest) (hc : DirCase r m e t)
    (hend : t.dirData.state.isTransient = e.state.isTransient) :
    ∃ ty : RawMessageType, ty.isAnswer ∧ ty.isAggack = false ∧
      t.out = some ((latch m e).toApp ty) := by
  cases hc with
  | mCheckFail _ _ => exact ⟨_, rfl, rfl, rfl⟩
  | bitmapCheckFail _ _ _ => exact ⟨_, rfl, rfl, rfl⟩
  | readMiss hm hs hb => exact ⟨_, rfl, rfl, rfl⟩
  | writeMiss hm hs hb => exact ⟨_, rfl, rfl, rfl⟩
  | writeSharedOnly hm hs hb hc => exact ⟨_, rfl, rfl, rfl⟩
  | evictShared hm hs hb => exact ⟨_, rfl, rfl, rfl⟩
  | evictDirty hm hs hb => exact ⟨_, rfl, rfl, rfl⟩
  | readMissDirty hm hs hb a => rw [hs] at hend; cases hend
  | writeMissShared hm hs hb => rw [hs] at hend; cases hend
  | writeMissDirty hm hs hb a => rw [hs] at hend; cases hend
  | writeSharedNotonly hm hs hb hc => rw [hs] at hend; cases hend
  | ignored hm' hs => rw [hm] at hm'; cases hm'
  | readMissDirtyAckdata hm' hs => rw [hm'] at hm; cases hm
  | writeMissDirtyAck hm' hs => rw [hm'] at hm; cases hm
  | sharedAckLast hm' hs hc => rw [hm'] at hm; cases hm
  | sharedAckMore hm' hs hc => rw [hm'] at hm; cases hm
  | notonlyAckLast hm' hs hc => rw [hm'] at hm; cases hm
  | notonlyAckMore hm' hs hc => rw [hm'] at hm; cases hm

/-- What a request that is answered at once finds in entry `e`, and the entry `e'` and the type
of the answer it leads to. -/
inductive Answers (m : CtrlMsg) (e e' : DirDataE) : RawMessageType → Prop
  | mCheckFail (hs : serves m.mtype e.state = false) (he : e' = e) :
      Answers m e e' .dir2AppMCheckFail
  | bitmapCheckFail (hs : serves m.mtype e.state)
      (hb : e.dirGblockBitmap m.reqClineNodeID ≠ wantsBit m.mtype) (he : e' = e) :
      Answers m e e' .dir2AppBitmapCheckFail
  | readMiss (hm : m.mtype = .rReadMiss) (hs : e.state = .sUnshared ∨ e.state = .sShared)
      (hb : m.reqClineNodeID ∉ e.bits) (hs' : e'.state = .sShared)
      (hb' : e'.bits = insert m.reqClineNodeID e.bits) :
      Answers m e e' .dir2AppReadMissAckdata
  | writeMiss (hm : m.mtype = .rWriteMiss) (hs : e.state = .sUnshared) (hb : e.bits = ∅)
      (hs' : e'.state = .sDirty) (hb' : e'.bits = {m.reqClineNodeID}) :
      Answers m e e' .dir2AppWriteMissAckdata
  | writeSharedOnly (hm : m.mtype = .rWriteShared) (hs : e.state = .sShared)
      (hb : e.bits = {m.reqClineNodeID}) (hs' : e'.state = .sDirty)
      (hb' : e'.bits = {m.reqClineNodeID}) : Answers m e e' .dir2AppWriteSharedOnlyack
  | evictShared (hm : m.mtype = .rEvictShared) (hs : e.state = .sShared)
      (hb : m.reqClineNodeID ∈ e.bits) (hs' : e'.state = .sShared ∨ e'.state = .sUnshared)
      (hb' : e'.bits = e.bits.erase m.reqClineNodeID) : Answers m e e' .dir2AppEvictSharedAck
  | evictDirty (hm : m.mtype = .rEvictDirty) (hs : e.state = .sDirty)
      (hb : e.bits = {m.reqClineNodeID}) (hs' : e'.state = .sUnshared) (hb' : e'.bits = ∅) :
      Answers m e e' .dir2AppEvictDirtyAck

theorem DirCase.answers (h : e.Consistent T) (hm : m.mtype.isRequest) (hc : DirCase r m e t)
    (hend : t.dirData.state.isTransient = e.state.isTransient) :
    ∃ ty, Answers m e t.dirData ty ∧ t.out = some ((latch m e).toApp ty) := by
  cases hc with
  | mCheckFail _ hs => exact ⟨_, .mCheckFail hs rfl, rfl⟩
  | bitmapCheckFail _ hs hb => exact ⟨_, .bitmapCheckFail hs hb rfl, rfl⟩
  | readMiss hm hs hb =>
      exact ⟨_, .readMiss hm hs (not_mem_bits.mpr hb) rfl (by simp [DirTick.emit]), rfl⟩
  | writeMiss hm hs hb =>
      have hz := (h.unshared hs).1
      exact ⟨_, .writeMiss hm hs hz rfl (by simp [DirTick.emit, hz]), rfl⟩
  | writeSharedOnly hm hs hb hc =>
      obtain ⟨hcount, hpos⟩ := h.shared hs
      have hle : e.bits.card ≤ 1 := by
        rw [← hcount]
        simpa [BitVec.lt_def] using hc
      have hmem := mem_bits.mpr hb
      have hsole : e.bits = {m.reqClineNodeID} := Finset.eq_singleton_iff_unique_mem.mpr
        ⟨hmem, fun n hn => Finset.card_le_one.mp hle n hn _ hmem⟩
      exact ⟨_, .writeSharedOnly hm hs hsole rfl (by simp [DirTick.emit, hsole]), rfl⟩
  | evictShared hm hs hb =>
      exact ⟨_, .evictShared hm hs (mem_bits.mpr hb) (ite_eq_or_eq _ _ _).symm
        (by simp [DirTick.emit]), rfl⟩
  | evictDirty hm hs hb =>
      obtain ⟨o, ho⟩ := Finset.card_eq_one.mp (h.dirty hs).1
      have hmem := mem_bits.mpr hb
      rw [ho, Finset.mem_singleton] at hmem
      subst hmem
      exact ⟨_, .evictDirty hm hs ho rfl (by simp [DirTick.emit, ho]), rfl⟩
  | readMissDirty hm hs hb a => rw [hs] at hend; cases hend
  | writeMissShared hm hs hb => rw [hs] at hend; cases hend
  | writeMissDirty hm hs hb a => rw [hs] at hend; cases hend
  | writeSharedNotonly hm hs hb hc => rw [hs] at hend; cases hend
  | ignored hm' hs => rw [hm] at hm'; cases hm'
  | readMissDirtyAckdata hm' hs => rw [hm'] at hm; cases hm
  | writeMissDirtyAck hm' hs => rw [hm'] at hm; cases hm
  | sharedAckLast hm' hs hc => rw [hm'] at hm; cases hm
  | sharedAckMore hm' hs hc => rw [hm'] at hm; cases hm
  | notonlyAckLast hm' hs hc => rw [hm'] at hm; cases hm
  | notonlyAckMore hm' hs hc => rw [hm'] at hm; cases hm

/-! ## Requests that open a transaction -/

theorem Txn.start_missing (k : Ticket) (m : CtrlMsg) (e : DirDataE) :
    (Txn.start k m e).missing = e.bits.erase m.reqClineNodeID := by
  simp [Txn.missing, Txn.start]

theorem Txn.start_req_notMem (k : Ticket) (m : CtrlMsg) (e : DirDataE) :
    (Txn.start k m e).req ∉ (Txn.start k m e).targets :=
  Finset.notMem_erase _ _

/-- How a transaction asks for its acknowledgements: at once, from a dirty owner, or by way
of the multicast registers, from all sharers. -/
inductive Txn.Asks (T : Txn) (r : DirRegs) (m : CtrlMsg) (e : DirDataE) (t : DirTick) : Prop
  | owner (hk : T.kind.isShared = false) (o : NodeId) (a : Addr) (ho : T.targets = {o})
      (hregs : t.regs = r) (hout : t.out = some ((latch m e).toAgent T.kind.order o a))
      (hs : e.state = .sDirty) (hbits : e.bits = {o})
  | sharers (hk : T.kind.isShared) (hs : e.state = .sShared)
      (hm : m.mtype = if T.kind = .writeMissShared then .rWriteMiss else .rWriteShared)
      (hb : T.kind = .writeMissShared → e.dirGblockBitmap m.reqClineNodeID = false)
      (hregs : t.regs = ⟨true, latch m e, e⟩)
      (hout : t.out = if T.kind = .writeMissShared then
        some ((latch m e).toApp .dir2AppWriteMissShareddata) else none)
      (hb' : T.kind = .writeShared → e.dirGblockBitmap m.reqClineNodeID = true)

/-- A request that opens a transaction leaves an entry tracked by the new record. -/
theorem Txn.Tracks.start (h : e.Consistent T) (hm : m.mtype.isRequest)
    (hc : DirCase r m e t) (hstable : e.state.isTransient = false)
    (htrans : t.dirData.state.isTransient) (k : Ticket) :
    (Txn.start k m e).Tracks t.dirData ∧ (Txn.start k m e).Asks r m e t := by
  cases hc with
  | readMissDirty hm hs hb a =>
      obtain ⟨o, ho, hlast⟩ := h.dirty_owner hs
      have herase : e.bits.erase m.reqClineNodeID = e.bits :=
        Finset.erase_eq_of_notMem (not_mem_bits.mpr hb)
      have hkind : (Txn.start k m e).kind = .readMissDirty := by
        simp [Txn.start, TxnKind.of, hm]
      refine ⟨⟨?_, start_req_notMem k m e, List.nodup_nil, by simp [Txn.start], ?_, rfl, ?_⟩,
        .owner (by rw [hkind]; rfl) o a (herase.trans ho) rfl (by rw [hkind, ← hlast]; rfl)
          hs ho⟩
      · rw [hkind]; rfl
      · rw [start_missing, herase, ho]
        exact Finset.singleton_nonempty o
      · rw [hkind]
        exact ⟨rfl, by simp [Txn.start, herase, (h.dirty hs).1], herase.symm, (h.dirty hs).2⟩
  | writeMissDirty hm hs hb a =>
      obtain ⟨o, ho, hlast⟩ := h.dirty_owner hs
      have herase : e.bits.erase m.reqClineNodeID = e.bits :=
        Finset.erase_eq_of_notMem (not_mem_bits.mpr hb)
      have hkind : (Txn.start k m e).kind = .writeMissDirty := by
        simp [Txn.start, TxnKind.of, hm, hs]
      refine ⟨⟨?_, start_req_notMem k m e, List.nodup_nil, by simp [Txn.start], ?_, rfl, ?_⟩,
        .owner (by rw [hkind]; rfl) o a (herase.trans ho) rfl (by rw [hkind, ← hlast]; rfl)
          hs ho⟩
      · rw [hkind]; rfl
      · rw [start_missing, herase, ho]
        exact Finset.singleton_nonempty o
      · rw [hkind]
        exact ⟨rfl, by simp [Txn.start, herase, (h.dirty hs).1], herase.symm, (h.dirty hs).2⟩
  | writeMissShared hm hs hb =>
      obtain ⟨hcount, hpos⟩ := h.shared hs
      have herase : e.bits.erase m.reqClineNodeID = e.bits :=
        Finset.erase_eq_of_notMem (not_mem_bits.mpr hb)
      have hkind : (Txn.start k m e).kind = .writeMissShared := by
        simp [Txn.start, TxnKind.of, hm, hs]
      have hmiss : (Txn.start k m e).missing = e.bits := (start_missing k m e).trans herase
      refine ⟨⟨?_, start_req_notMem k m e, List.nodup_nil, by simp [Txn.start], ?_, rfl, ?_⟩,
        .sharers (by rw [hkind]; rfl) hs (by rw [hkind]; exact hm) (fun _ => hb) rfl
          (by rw [hkind]; rfl) (fun hk => by rw [hkind] at hk; cases hk)⟩
      · rw [hkind]; rfl
      · rw [hmiss]
        exact Finset.card_pos.mp hpos
      · rw [hkind]
        refine ⟨?_, ?_⟩
        · rw [hmiss]
          show e.bits = e.bits ∪ ∅
          simp
        · rw [hmiss]
          exact hcount
  | writeSharedNotonly hm hs hb hc =>
      obtain ⟨hcount, -⟩ := h.shared hs
      have hmem := mem_bits.mpr hb
      have hkind : (Txn.start k m e).kind = .writeShared := by
        simp [Txn.start, TxnKind.of, hm]
      have hcard := Finset.card_erase_of_mem hmem
      have hgt : 1 < e.bits.card := by
        rw [← hcount]
        simpa [BitVec.lt_def] using hc
      refine ⟨⟨?_, start_req_notMem k m e, List.nodup_nil, by simp [Txn.start], ?_, rfl, ?_⟩,
        .sharers (by rw [hkind]; rfl) hs (by rw [hkind]; exact hm)
          (fun hk => by rw [hkind] at hk; cases hk) rfl (by rw [hkind]; rfl) (fun _ => hb)⟩
      · rw [hkind]; rfl
      · rw [start_missing]
        exact Finset.card_pos.mp (by omega)
      · rw [hkind]
        refine ⟨?_, ?_⟩
        · rw [start_missing]
          exact (Finset.insert_erase hmem).symm
        · rw [start_missing, hcard]
          show e.replicaCount.toNat = e.bits.card - 1 + 1
          omega
  | mCheckFail _ _ => exact absurd htrans (by simp [DirTick.emit, hstable])
  | bitmapCheckFail _ _ _ => exact absurd htrans (by simp [DirTick.emit, hstable])
  | readMiss hm hs hb => cases htrans
  | writeMiss hm hs hb => cases htrans
  | writeSharedOnly hm hs hb hc => cases htrans
  | evictShared hm hs hb =>
      by_cases hone : e.replicaCount = 1 <;>
        simp only [DirTick.emit, state_setBit, hone, if_true, if_false] at htrans <;>
        cases htrans
  | evictDirty hm hs hb => cases htrans
  | ignored hm' hs => rw [hm] at hm'; cases hm'
  | readMissDirtyAckdata hm' hs => rw [hm'] at hm; cases hm
  | writeMissDirtyAck hm' hs => rw [hm'] at hm; cases hm
  | sharedAckLast hm' hs hc => rw [hm'] at hm; cases hm
  | sharedAckMore hm' hs hc => rw [hm'] at hm; cases hm
  | notonlyAckLast hm' hs hc => rw [hm'] at hm; cases hm
  | notonlyAckMore hm' hs hc => rw [hm'] at hm; cases hm

/-! ## Acknowledgements -/

theorem Txn.missing_observe {t : Txn} (hm : m.mtype.isAgent2Dir) (out : Option CtrlMsg) :
    (t.observe m out).missing = t.missing.erase m.agentClineNodeID := by
  ext n
  simp only [missing, observe, hm, if_true, Finset.mem_filter, Finset.mem_erase,
    List.mem_append, List.mem_singleton]
  tauto

@[simp] theorem Txn.observe_header (t : Txn) (m : CtrlMsg) (out : Option CtrlMsg) :
    (t.observe m out).header = t.header := rfl

@[simp] theorem Txn.observe_req (t : Txn) (m : CtrlMsg) (out : Option CtrlMsg) :
    (t.observe m out).req = t.req := rfl

@[simp] theorem Txn.observe_kind (t : Txn) (m : CtrlMsg) (out : Option CtrlMsg) :
    (t.observe m out).kind = t.kind := rfl

@[simp] theorem Txn.observe_targets (t : Txn) (m : CtrlMsg) (out : Option CtrlMsg) :
    (t.observe m out).targets = t.targets := rfl

@[simp] theorem Txn.observe_ticket (t : Txn) (m : CtrlMsg) (out : Option CtrlMsg) :
    (t.observe m out).ticket = t.ticket := rfl

theorem TxnKind.state_isTransient (k : TxnKind) : k.state.isTransient := by
  cases k <;> rfl

theorem TxnKind.ack_isAgent2Dir (k : TxnKind) : k.ack.isAgent2Dir := by
  cases k <;> rfl

/-- What the acknowledgement of a target does.  The last one completes the transaction:
the entry is stable again, with the requester as sole owner, or, after a read miss, as one
more reader, and an aggregated grant goes out where the kind has one.  Any other only
leaves one acknowledgement fewer to wait for. -/
inductive Txn.Acked (T : Txn) (m : CtrlMsg) (e : DirDataE) (t : DirTick) : Prop
  | last (hmiss : T.missing = {m.agentClineNodeID})
      (hstate : t.dirData.state = if T.kind = .readMissDirty then .sShared else .sDirty)
      (hbits : t.dirData.bits = if T.kind = .readMissDirty then insert T.req T.targets
        else {T.req})
      (hcons : t.dirData.Consistent none)
      (hout : t.out = if T.kind.isShared then some ((latch m e).toApp T.kind.grant) else none)
  | more (hkind : T.kind.isShared) (htracks : (T.observe m t.out).Tracks t.dirData)
      (hstate : t.dirData.state = e.state) (hout : t.out = none)

theorem Txn.Tracks.ne_req {t : Txn} (h : t.Tracks e) {n : NodeId} (hn : n ∈ t.missing) :
    n ≠ t.req := by
  rintro rfl
  exact h.req (Finset.mem_of_mem_filter _ hn)

theorem Txn.Tracks.observe {t : Txn} (h : t.Tracks e) (hk : t.kind.isShared)
    (hm : m.mtype.isAgent2Dir) (hreq : m.reqClineNodeID = t.req)
    (ha : m.agentClineNodeID ∈ t.missing) (hmore : t.missing ≠ {m.agentClineNodeID}) :
    (t.observe m none).Tracks
      { (e.setBit m.reqClineNodeID true).setBit m.agentClineNodeID false with
        replicaCount := e.replicaCount - 1 } := by
  have hacked : (t.observe m none).acked = t.acked ++ [m.agentClineNodeID] := by
    simp only [Txn.observe, hm, if_true]
  have hmiss := missing_observe (t := t) hm none
  have hne : t.req ≠ m.agentClineNodeID := (h.ne_req ha).symm
  obtain ⟨hatarget, hafresh⟩ := Finset.mem_filter.mp ha
  have hpos : 1 ≤ t.missing.card := Finset.card_pos.mpr ⟨_, ha⟩
  refine ⟨h.state, h.req, ?_, ?_, ?_, h.aggacks, ?_⟩
  · rw [hacked]
    exact List.nodup_append.mpr ⟨h.nodup, List.nodup_singleton _, by
      rintro n hn k hk rfl
      exact hafresh ((List.mem_singleton.mp hk) ▸ hn)⟩
  · intro n hn
    rw [hacked] at hn
    rcases List.mem_append.mp hn with hn | hn
    · exact h.acked n hn
    · exact (List.mem_singleton.mp hn) ▸ hatarget
  · rw [hmiss]
    by_contra hempty
    rw [Finset.not_nonempty_iff_eq_empty, Finset.erase_eq_empty_iff] at hempty
    rcases hempty with hempty | hempty
    · exact absurd ha (by simp [hempty])
    · exact hmore hempty
  · have hshape := h.shape
    show match t.kind with
      | .readMissDirty | .writeMissDirty => _
      | .writeMissShared => _
      | .writeShared => _
    cases hkind : t.kind <;> rw [hkind] at hshape hk
    case readMissDirty | writeMissDirty => cases hk
    case writeMissShared =>
      obtain ⟨hbits, hcount⟩ := hshape
      simp only [bits_withCount, bits_setBit_false, bits_setBit_true, hreq, hmiss, hacked, hbits,
        Finset.card_erase_of_mem ha, count_pred hcount hpos]
      refine ⟨?_, trivial⟩
      ext n
      by_cases hnil : t.acked = [] <;>
        simp only [observe_req, hnil, if_true, if_false, List.append_eq_nil_iff, List.cons_ne_nil, and_false,
          Finset.mem_erase, Finset.mem_insert, Finset.mem_union, Finset.mem_singleton,
          Finset.notMem_empty, or_false] <;>
        grind
    case writeShared =>
      obtain ⟨hbits, hcount⟩ := hshape
      simp only [observe_req, bits_withCount, bits_setBit_false, bits_setBit_true, hreq, hmiss,
        hbits, Finset.card_erase_of_mem ha, count_pred hcount (Nat.le_add_left _ _)]
      refine ⟨?_, by omega⟩
      ext n
      simp only [Finset.mem_erase, Finset.mem_insert]
      grind

/-- The last acknowledgement of a shared transaction makes the requester the sole owner. -/
theorem Txn.Tracks.sole_owner {t : Txn} (h : t.Tracks e) (hk : t.kind.isShared)
    (hreq : m.reqClineNodeID = t.req) (ha : t.missing = {m.agentClineNodeID}) :
    ((e.setBit m.reqClineNodeID true).setBit m.agentClineNodeID false).bits = {t.req} := by
  have hne : t.req ≠ m.agentClineNodeID := (h.ne_req (by simp [ha])).symm
  have hshape := h.shape
  rw [bits_setBit_false, bits_setBit_true, hreq]
  cases hkind : t.kind <;> rw [hkind] at hshape hk
  case readMissDirty | writeMissDirty => cases hk
  case writeMissShared =>
    rw [hshape.1, ha]
    ext n
    by_cases hnil : t.acked = [] <;> simp [hnil] <;> grind
  case writeShared =>
    rw [hshape.1, ha]
    ext n
    simp
    grind

theorem Txn.missing_eq_of_card {t : Txn} (ha : m.agentClineNodeID ∈ t.missing)
    (h : t.missing.card = 1) : t.missing = {m.agentClineNodeID} := by
  obtain ⟨o, ho⟩ := Finset.card_eq_one.mp h
  rw [ho, Finset.mem_singleton] at ha
  rw [ho, ha]

/-- A transaction with a dirty owner waits for that owner alone. -/
theorem Txn.Tracks.sole_target {t : Txn} (h : t.Tracks e) (hk : t.kind.isShared = false)
    (ha : m.agentClineNodeID ∈ t.missing) :
    t.missing = {m.agentClineNodeID} ∧ t.targets = {m.agentClineNodeID} ∧ e.bits = t.targets ∧
      e.replicaCount = 1 := by
  obtain ⟨hnil, hcard, hbits, hcount⟩ :
      t.acked = [] ∧ t.targets.card = 1 ∧ e.bits = t.targets ∧ e.replicaCount = 1 := by
    have hshape := h.shape
    cases hkind : t.kind <;> rw [hkind] at hshape hk
    case readMissDirty | writeMissDirty => exact hshape
    all_goals cases hk
  have hmiss : t.missing = t.targets := by simp [Txn.missing, hnil]
  refine ⟨missing_eq_of_card ha (hmiss ▸ hcard), ?_, hbits, hcount⟩
  rw [← hmiss]
  exact missing_eq_of_card ha (hmiss ▸ hcard)

/-- An acknowledgement of the pending transaction does what `Txn.Acked` says. -/
theorem Txn.Tracks.ack {t : Txn} {u : DirTick} (h : t.Tracks e) (hm : m.mtype = t.kind.ack)
    (hreq : m.reqClineNodeID = t.req) (ha : m.agentClineNodeID ∈ t.missing)
    (hc : DirCase r m e u) : u.regs = r ∧ t.Acked m e u := by
  have hstate := h.state
  have h2d : m.mtype.isAgent2Dir := hm ▸ t.kind.ack_isAgent2Dir
  have hne := h.ne_req ha
  cases hc with
  | readMissDirtyAckdata hm' hs =>
      have hkind : t.kind = .readMissDirty := by
        rw [hm'] at hm; cases hk : t.kind <;> rw [hk] at hm <;> simp_all [TxnKind.ack]
      obtain ⟨hmiss, htargets, hbits, hcount⟩ := h.sole_target (by rw [hkind]; rfl) ha
      refine ⟨rfl, .last hmiss (by simp [hkind, DirTick.quiet]) ?_ ?_ (by rw [hkind]; rfl)⟩
      · simp [hkind, DirTick.quiet, hbits, hreq]
      · simp [DirTick.quiet, Consistent, hbits, htargets, hreq, hcount,
          Finset.card_pair hne.symm]
  | writeMissDirtyAck hm' hs =>
      have hkind : t.kind = .writeMissDirty := by
        rw [hm'] at hm; cases hk : t.kind <;> rw [hk] at hm <;> simp_all [TxnKind.ack]
      obtain ⟨hmiss, htargets, hbits, hcount⟩ := h.sole_target (by rw [hkind]; rfl) ha
      have hsole : (insert t.req ({m.agentClineNodeID} : Finset NodeId)).erase
          m.agentClineNodeID = {t.req} := by
        ext n; simp; grind
      refine ⟨rfl, .last hmiss (by simp [hkind, DirTick.quiet]) ?_ ?_ (by rw [hkind]; rfl)⟩
      · simp [hkind, DirTick.quiet, hbits, htargets, hreq, hsole]
      · simp [DirTick.quiet, Consistent, hbits, htargets, hreq, hsole]
  | sharedAckLast hm' hs hcnt =>
      have hkind : t.kind = .writeMissShared := by
        rw [hm'] at hm; cases hk : t.kind <;> rw [hk] at hm <;> simp_all [TxnKind.ack]
      have hshape := h.shape
      rw [hkind] at hshape
      have hmiss := missing_eq_of_card ha ((count_eq hshape.2 1 (by decide)).mp hcnt)
      have hsole := h.sole_owner (by rw [hkind]; rfl) hreq hmiss
      refine ⟨rfl, .last hmiss (by simp [hkind, DirTick.emit]) ?_ ?_ (by rw [hkind]; rfl)⟩
      · simp only [DirTick.emit, bits_withState, hkind, hsole]
        rfl
      · simp only [DirTick.emit, Consistent, bits_withState, hsole]
        exact ⟨rfl, hcnt⟩
  | sharedAckMore hm' hs hcnt =>
      have hkind : t.kind = .writeMissShared := by
        rw [hm'] at hm; cases hk : t.kind <;> rw [hk] at hm <;> simp_all [TxnKind.ack]
      have hshape := h.shape
      rw [hkind] at hshape
      have hmore : t.missing ≠ {m.agentClineNodeID} := fun heq =>
        hcnt ((count_eq hshape.2 1 (by decide)).mpr (by rw [heq]; rfl))
      have hk : t.kind.isShared := by rw [hkind]; rfl
      exact ⟨rfl, .more hk (h.observe hk h2d hreq ha hmore) rfl rfl⟩
  | notonlyAckLast hm' hs hcnt =>
      have hkind : t.kind = .writeShared := by
        rw [hm'] at hm; cases hk : t.kind <;> rw [hk] at hm <;> simp_all [TxnKind.ack]
      have hshape := h.shape
      rw [hkind] at hshape
      have hone := (count_eq hshape.2 2 (by decide)).mp hcnt
      have hmiss := missing_eq_of_card ha (by omega)
      have hsole := h.sole_owner (by rw [hkind]; rfl) hreq hmiss
      refine ⟨rfl, .last hmiss (by simp [hkind, DirTick.emit]) ?_ ?_ (by rw [hkind]; rfl)⟩
      · simp only [DirTick.emit, bits_withStateCount, hkind, hsole]
        rfl
      · simp only [DirTick.emit, Consistent, bits_withStateCount, hsole]
        exact ⟨rfl, trivial⟩
  | notonlyAckMore hm' hs hcnt =>
      have hkind : t.kind = .writeShared := by
        rw [hm'] at hm; cases hk : t.kind <;> rw [hk] at hm <;> simp_all [TxnKind.ack]
      have hshape := h.shape
      rw [hkind] at hshape
      have hmore : t.missing ≠ {m.agentClineNodeID} := fun heq =>
        hcnt ((count_eq hshape.2 2 (by decide)).mpr (by rw [heq]; rfl))
      have hk : t.kind.isShared := by rw [hkind]; rfl
      exact ⟨rfl, .more hk (h.observe hk h2d hreq ha hmore) rfl rfl⟩
  | ignored hm' hs =>
      refine absurd ?_ hs
      rw [hm, hstate]
      cases t.kind <;> rfl
  | mCheckFail hm' _ => rw [hm] at hm'; cases hk : t.kind <;> rw [hk] at hm' <;> cases hm'
  | bitmapCheckFail hm' _ _ => rw [hm] at hm'; cases hk : t.kind <;> rw [hk] at hm' <;> cases hm'
  | readMiss hm' hs hb => rw [hm'] at h2d; cases h2d
  | readMissDirty hm' hs hb a => rw [hm'] at h2d; cases h2d
  | writeMiss hm' hs hb => rw [hm'] at h2d; cases h2d
  | writeMissShared hm' hs hb => rw [hm'] at h2d; cases h2d
  | writeMissDirty hm' hs hb a => rw [hm'] at h2d; cases h2d
  | writeSharedNotonly hm' hs hb hc => rw [hm'] at h2d; cases h2d
  | writeSharedOnly hm' hs hb hc => rw [hm'] at h2d; cases h2d
  | evictShared hm' hs hb => rw [hm'] at h2d; cases h2d
  | evictDirty hm' hs hb => rw [hm'] at h2d; cases h2d

end Steps

end Ting
