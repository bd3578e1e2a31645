/-
# `Ting.Hls.Balance` — what the fabric conserves

A node's right to use a block is somewhere: the directory records it (`owning`), a grant is
on its way to the node (`granting`), or a revocation (`revoking`) or an answer to an eviction
(`releasing`) is on its way there and the directory has written the right off already.  No
stage of the fabric changes `owning + revoking + releasing - granting`; only the hosts do,
when they take a message from a queue.  The same holds of the right to write, where a
downgrade counts as well, of the answer every request is owed (`tokens`), and of the data a
write miss on a shared block is owed on top of its grant.
-/
import Ting.Hls.Ledger

namespace Ting

open Total Fabric

/-! ## Classes of messages -/

namespace RawMessageType

/-- The orders that take a line away. -/
def revokes : RawMessageType → Bool
  | dir2AgentWriteMissDirty | dir2AgentWriteMissShared | dir2AgentWriteSharedNotonly => true
  | _ => false

/-- The order that takes a modified line away. -/
def revokesDirty : RawMessageType → Bool
  | dir2AgentWriteMissDirty => true
  | _ => false

/-- The order that turns a modified line into a shared one. -/
def downgrades : RawMessageType → Bool
  | dir2AgentReadMissDirty => true
  | _ => false

/-- The two orders to the owner of a modified line. -/
def takesWrite (t : RawMessageType) : Bool :=
  t.revokesDirty || t.downgrades

/-- The acknowledgements of an owner whose line was shipped to the requester. -/
def isShipAck : RawMessageType → Bool
  | agent2DirReadMissDirtyAckdata | agent2DirWriteMissDirtyAck => true
  | _ => false

/-- The one of them that makes the requester the owner. -/
def isDirtyShipAck : RawMessageType → Bool
  | agent2DirWriteMissDirtyAck => true
  | _ => false

/-- The orders to a sharer. -/
def isSharedOrder : RawMessageType → Bool
  | dir2AgentWriteMissShared | dir2AgentWriteSharedNotonly => true
  | _ => false

/-- The acknowledgements of a sharer. -/
def isSharedAck : RawMessageType → Bool
  | agent2DirWriteMissSharedAck | agent2DirWriteSharedNotonlyAck => true
  | _ => false

/-- The answers that end a miss with success. -/
def isGrant : RawMessageType → Bool
  | dir2AppReadMissAckdata | agent2AppReadMissDirtyAckdata | dir2AppWriteMissAckdata
  | agent2AppWriteMissDirtyAckdata | dir2AppWriteMissSharedAggackAck => true
  | _ => false

/-- The answers that end a write miss or an upgrade with success. -/
def isWriteGrant : RawMessageType → Bool
  | dir2AppWriteMissAckdata | agent2AppWriteMissDirtyAckdata | dir2AppWriteMissSharedAggackAck
  | dir2AppWriteSharedOnlyack | dir2AppWriteSharedNotonlyAggackAck => true
  | _ => false

/-- The answers that end an eviction with success. -/
def isEvictAck : RawMessageType → Bool
  | dir2AppEvictSharedAck | dir2AppEvictDirtyAck => true
  | _ => false

/-- The one of them that ends the eviction of a modified line. -/
def isDirtyEvictAck : RawMessageType → Bool
  | dir2AppEvictDirtyAck => true
  | _ => false

/-- The answer that says that the requester's own cell had the wrong value. -/
def isBitmapFail : RawMessageType → Bool
  | dir2AppBitmapCheckFail => true
  | _ => false

/-- The data of a write miss on a shared block. -/
def isShareddata : RawMessageType → Bool
  | dir2AppWriteMissShareddata => true
  | _ => false

/-- The grant that belongs to that data. -/
def isMissAggack : RawMessageType → Bool
  | dir2AppWriteMissSharedAggackAck => true
  | _ => false

/-- What the directory sends in the tick that opens a transaction. -/
def opens (t : RawMessageType) : Bool :=
  t.isOrder || t.isShareddata

/-- The answers that end a request.  `WRITE_MISS_SHAREDDATA` does not: an aggregated grant is
still to come, or has come before. -/
def isOutcome (t : RawMessageType) : Bool :=
  t.isAnswer && !t.isShareddata

end RawMessageType

namespace CtrlMsg

/-- One for a message about block `b` that was asked for by node `n`. -/
def askedBy (n : NodeId) (b : Block) (m : CtrlMsg) : ℕ :=
  ind (m.block = b ∧ m.reqClineNodeID = n)

/-- One for a message of class `c` about block `b` that was asked for by node `n`. -/
def forReq (c : RawMessageType → Bool) (n : NodeId) (b : Block) (m : CtrlMsg) : ℕ :=
  if c m.mtype then m.askedBy n b else 0

/-- One for a message about block `b` that is meant for the agents of node `n`. -/
def meantFor (n : NodeId) (b : Block) (m : CtrlMsg) : ℕ :=
  ind (m.block = b ∧ m.agentClineNodeID = n)

/-- One for a message of class `c` about block `b` that is meant for the agents of node `n`. -/
def forAgent (c : RawMessageType → Bool) (n : NodeId) (b : Block) (m : CtrlMsg) : ℕ :=
  if c m.mtype then m.meantFor n b else 0

theorem askedBy_local {n : NodeId} {b : Block} {m : CtrlMsg} (h : m.block ≠ b) :
    m.askedBy n b = 0 :=
  ind_of_not fun hc => h hc.1

theorem meantFor_local {n : NodeId} {b : Block} {m : CtrlMsg} (h : m.block ≠ b) :
    m.meantFor n b = 0 :=
  ind_of_not fun hc => h hc.1

theorem forReq_local {c : RawMessageType → Bool} {n : NodeId} {b : Block} {m : CtrlMsg}
    (h : m.block ≠ b) : m.forReq c n b = 0 := by
  unfold forReq
  split
  · exact askedBy_local h
  · rfl

theorem forAgent_local {c : RawMessageType → Bool} {n : NodeId} {b : Block} {m : CtrlMsg}
    (h : m.block ≠ b) : m.forAgent c n b = 0 := by
  unfold forAgent
  split
  · exact meantFor_local h
  · rfl

/-- A message of one class is in no other class that excludes it. -/
theorem forReq_zero {c d : RawMessageType → Bool} {n : NodeId} {b : Block} {m : CtrlMsg}
    (hcd : ∀ t, d t = true → c t = false) (hm : d m.mtype = true) : m.forReq c n b = 0 := by
  rw [forReq, hcd _ hm]
  rfl

theorem forAgent_zero {c d : RawMessageType → Bool} {n : NodeId} {b : Block} {m : CtrlMsg}
    (hcd : ∀ t, d t = true → c t = false) (hm : d m.mtype = true) : m.forAgent c n b = 0 := by
  rw [forAgent, hcd _ hm]
  rfl

theorem askedBy_header {n : NodeId} {b : Block} {m m' : CtrlMsg} (h : m'.header = m.header) :
    m'.askedBy n b = m.askedBy n b := by
  have hb := congrArg Header.block h
  have hr := congrArg Header.reqClineNodeID h
  unfold askedBy
  exact ind_congr (by rw [show m'.block = m.block from hb,
    show m'.reqClineNodeID = m.reqClineNodeID from hr])

end CtrlMsg

/-! ## Rights -/

/-- The nodes that the directory will still count as holders once the pending transaction is
over, if it is one that takes the block away from the others. -/
def DirDataE.owned (e : DirDataE) (T : Option Txn) : Finset NodeId :=
  if e.state = .sToDirty then
    T.elim ∅ fun T => if T.kind = .writeShared then {T.req} else ∅
  else e.bits

/-- The copy register of a cache controller that owes the directory the news that node `n`
was shipped block `b`. -/
def CcRegs.ships (n : NodeId) (b : Block) (r : CcRegs) : ℕ :=
  if r.regCopyFlag then r.regCtrlMsg.askedBy n b else 0

/-- The same, when the block was shipped for writing. -/
def CcRegs.shipsDirty (n : NodeId) (b : Block) (r : CcRegs) : ℕ :=
  if r.regCopyFlag ∧ r.regCtrlMsg.mtype = .dir2AgentWriteMissDirty then r.regCtrlMsg.askedBy n b
  else 0

/-- A ledger that counts messages of a class asked for by node `n`. -/
def Ledger.asked (c : RawMessageType → Bool) (n : NodeId) (b : Block) : Ledger b where
  flight f := f.packet.msg.forReq c n b
  cc _ := 0
  dir _ := 0
  entry _ _ := 0
  flight_local _ h := CtrlMsg.forReq_local h
  cc_local _ _ := rfl
  dir_local _ _ := rfl

/-- A ledger that counts messages of a class meant for the agents of node `n`. -/
def Ledger.meant (c : RawMessageType → Bool) (n : NodeId) (b : Block) : Ledger b where
  flight f := f.packet.msg.forAgent c n b
  cc _ := 0
  dir _ := 0
  entry _ _ := 0
  flight_local _ h := CtrlMsg.forAgent_local h
  cc_local _ _ := rfl
  dir_local _ _ := rfl

/-- The right of node `n` to block `b` on the directory's side: recorded, or about to be by
the acknowledgement of an owner that has shipped its line. -/
def Ledger.owning (n : NodeId) (b : Block) : Ledger b where
  flight f := f.packet.msg.forReq (·.isShipAck) n b
  cc r := r.ships n b
  dir _ := 0
  entry e T := ind (n ∈ e.owned T)
  flight_local _ h := CtrlMsg.forReq_local h
  cc_local r h := by
    unfold CcRegs.ships
    split
    next hf => exact CtrlMsg.askedBy_local fun hb => h ⟨hf, hb⟩
    next => rfl
  dir_local _ _ := rfl

/-- The revocations of block `b` that are on their way to node `n`. -/
def Ledger.revoking (n : NodeId) (b : Block) : Ledger b where
  flight f := f.packet.msg.forAgent (·.revokes) n b
  cc _ := 0
  dir r := r.owes b n
  entry _ _ := 0
  flight_local _ h := CtrlMsg.forAgent_local h
  cc_local _ _ := rfl
  dir_local r h := by
    rw [DirRegs.owes, if_neg]
    rintro ⟨hf, hb, -⟩
    exact h ⟨hf, hb⟩

/-- The right of node `n` to write block `b` on the directory's side. -/
def Ledger.writeOwning (n : NodeId) (b : Block) : Ledger b where
  flight f := f.packet.msg.forReq (·.isDirtyShipAck) n b
  cc r := r.shipsDirty n b
  dir _ := 0
  entry e _ := ind (e.state = .sDirty ∧ n ∈ e.bits)
  flight_local _ h := CtrlMsg.forReq_local h
  cc_local r h := by
    unfold CcRegs.shipsDirty
    split
    next hf => exact CtrlMsg.askedBy_local fun hb => h ⟨hf.1, hb⟩
    next => rfl
  dir_local _ _ := rfl

namespace Fabric

/-- The rights of node `n` to block `b` on the directory's side. -/
def owning (s : Fabric) (n : NodeId) (b : Block) : ℕ := (Ledger.owning n b).value s

/-- The revocations of block `b` on their way to node `n`. -/
def revoking (s : Fabric) (n : NodeId) (b : Block) : ℕ := (Ledger.revoking n b).value s

/-- The grants of block `b` on their way to node `n`. -/
def granting (s : Fabric) (n : NodeId) (b : Block) : ℕ :=
  (Ledger.asked (·.isGrant) n b).value s

/-- The confirmed evictions of block `b` on their way to node `n`. -/
def releasing (s : Fabric) (n : NodeId) (b : Block) : ℕ :=
  (Ledger.asked (·.isEvictAck) n b).value s

/-- The rights of node `n` to write block `b` on the directory's side. -/
def writeOwning (s : Fabric) (n : NodeId) (b : Block) : ℕ := (Ledger.writeOwning n b).value s

/-- The revocations of a modified block on their way to node `n`. -/
def revokingDirty (s : Fabric) (n : NodeId) (b : Block) : ℕ :=
  (Ledger.meant (·.revokesDirty) n b).value s

/-- The downgrades of block `b` on their way to node `n`. -/
def downgrading (s : Fabric) (n : NodeId) (b : Block) : ℕ :=
  (Ledger.meant (·.downgrades) n b).value s

/-- The grants to write block `b` on their way to node `n`. -/
def writeGranting (s : Fabric) (n : NodeId) (b : Block) : ℕ :=
  (Ledger.asked (·.isWriteGrant) n b).value s

/-- The confirmed evictions of a modified block on their way to node `n`. -/
def releasingDirty (s : Fabric) (n : NodeId) (b : Block) : ℕ :=
  (Ledger.asked (·.isDirtyEvictAck) n b).value s

end Fabric

/-! ## The right to use a block -/

section Conservation

variable {s s' : Fabric} {b : Block} {n : NodeId}

theorem DirDataE.owned_eq {e : DirDataE} {T : Option Txn} {st : RawState} (hs : e.state = st)
    (h : st ≠ .sToDirty) : e.owned T = e.bits :=
  if_neg (hs ▸ h)

theorem CtrlMsg.askedBy_toApp {m : CtrlMsg} {e : DirDataE} {ty : RawMessageType} :
    ((latch m e).toApp ty).askedBy n m.block = ind (n = m.reqClineNodeID) :=
  ind_congr ⟨fun hc => hc.2.symm, fun hc => ⟨rfl, hc.symm⟩⟩

theorem ind_mem_insert {S : Finset NodeId} {k : NodeId} (hk : k ∉ S) :
    ind (n ∈ insert k S) = ind (n ∈ S) + ind (n = k) := by
  by_cases hn : n = k
  · subst hn
    rw [ind_of (Finset.mem_insert_self _ _), ind_of_not hk, ind_of rfl]
  · rw [ind_of_not hn]
    exact ind_congr (by simp [hn])

theorem ind_mem_erase {S : Finset NodeId} {k : NodeId} (hk : k ∈ S) :
    ind (n ∈ S.erase k) + ind (n = k) = ind (n ∈ S) := by
  rw [← ind_mem_insert (Finset.notMem_erase k S), Finset.insert_erase hk]

theorem Answers.isAnswer {m : CtrlMsg} {e e' : DirDataE} {ty : RawMessageType}
    (h : Answers m e e' ty) : ty.isAnswer := by
  cases h <;> rfl

/-- What an answer does to the right of node `n`. -/
theorem Answers.rights {m : CtrlMsg} {e e' : DirDataE} {ty : RawMessageType} {T : Option Txn}
    (h : Answers m e e' ty) :
    ind (n ∈ e'.owned T) + ((latch m e).toApp ty).forReq (·.isEvictAck) n m.block
      = ind (n ∈ e.owned T) + ((latch m e).toApp ty).forReq (·.isGrant) n m.block := by
  have hask : ((latch m e).toApp ty).askedBy n m.block = ind (n = m.reqClineNodeID) :=
    CtrlMsg.askedBy_toApp
  cases h with
  | mCheckFail hs he => rw [he]; rfl
  | bitmapCheckFail hs hb he => rw [he]; rfl
  | readMiss hm hs hb hs' hb' =>
      have hown : e.owned T = e.bits := by
        rcases hs with hs | hs <;> exact DirDataE.owned_eq hs (by decide)
      rw [hown, DirDataE.owned_eq hs' (by decide), hb', ind_mem_insert hb, ← hask]
      rfl
  | writeMiss hm hs hb hs' hb' =>
      rw [DirDataE.owned_eq hs (by decide), DirDataE.owned_eq hs' (by decide), hb, hb']
      simp only [Finset.mem_singleton, Finset.notMem_empty, ← hask]
      show _ + 0 = 0 + _
      rw [add_zero, zero_add]
      rfl
  | writeSharedOnly hm hs hb hs' hb' =>
      rw [DirDataE.owned_eq hs (by decide), DirDataE.owned_eq hs' (by decide), hb, hb']
      rfl
  | evictShared hm hs hb hs' hb' =>
      have hown : e'.owned T = e'.bits := by
        rcases hs' with hs' | hs' <;> exact DirDataE.owned_eq hs' (by decide)
      rw [hown, DirDataE.owned_eq hs (by decide), hb', ← ind_mem_erase hb, ← hask]
      rfl
  | evictDirty hm hs hb hs' hb' =>
      rw [DirDataE.owned_eq hs' (by decide), DirDataE.owned_eq hs (by decide), hb, hb']
      simp only [Finset.mem_singleton, Finset.notMem_empty, ← hask]
      show 0 + _ = _ + 0
      rw [add_zero, zero_add]
      rfl

theorem Txn.Tracks.isDirty {T : Txn} {e : DirDataE} (h : T.Tracks e) :
    e.state = .sToDirty ↔ T.kind ≠ .readMissDirty := by
  rw [h.state]
  cases T.kind <;> decide

/-- What a request that opens a transaction does to the right of node `n`. -/
theorem Txn.Asks.rights {T : Txn} {k : Ticket} {r : DirRegs} {m : CtrlMsg} {e : DirDataE}
    {t : DirTick} {U : Option Txn} (h : T.Asks r m e t) (hT : T = .start k m e)
    (hr : r.regCopyFlag = false) (htracks : T.Tracks t.dirData) :
    ind (n ∈ t.dirData.owned (some T)) + t.out.elim 0 (·.forAgent (·.revokes) n m.block)
      + t.regs.owes m.block n = ind (n ∈ e.owned U) := by
  have howes := FabricInv.opening_owes (p := ⟨k, m⟩) h hT hr m.block n
  have hdirty := htracks.isDirty
  cases h with
  | owner hk o a ho hregs hout hs hbits =>
      have hz : t.regs.owes m.block n = 0 := by rw [hregs]; simp [DirRegs.owes, hr]
      rw [DirDataE.owned_eq hs (by decide), hbits, hz, hout]
      cases hkind : T.kind <;> rw [hkind] at hk
      case readMissDirty =>
        have hb : t.dirData.bits = {o} := by
          have hshape := htracks.shape
          rw [hkind] at hshape
          exact hshape.2.2.1.trans ho
        have hst : t.dirData.state = .sToShared := htracks.state.trans (by rw [hkind]; rfl)
        rw [DirDataE.owned_eq hst (by decide), hb]
        rfl
      case writeMissDirty =>
        have hst : t.dirData.state = .sToDirty := hdirty.mpr (by rw [hkind]; decide)
        have hown : t.dirData.owned (some T) = ∅ := by simp [DirDataE.owned, hst, hkind]
        rw [hown]
        show 0 + ind (m.block = m.block ∧ o = n) + 0 = _
        rw [zero_add, add_zero]
        exact ind_congr (by simp [eq_comm])
      all_goals cases hk
  | sharers hk hs hm hb hregs hout hb' =>
      have hmiss : T.missing = e.bits.erase m.reqClineNodeID := by rw [hT, Txn.start_missing]
      have hreq : T.req = m.reqClineNodeID := by rw [hT]; rfl
      have hst : t.dirData.state = .sToDirty :=
        hdirty.mpr (by intro hk'; rw [hk'] at hk; cases hk)
      have hz : t.out.elim 0 (·.forAgent (·.revokes) n m.block) = 0 := by
        rw [hout]
        split_ifs <;> rfl
      have hz' : t.out.elim 0 (CtrlMsg.owes m.block n) = 0 := by
        rw [hout]
        split_ifs <;> rfl
      have howes' : t.regs.owes m.block n = ind (n ∈ e.bits.erase m.reqClineNodeID) := by
        rw [hz', zero_add] at howes
        rw [howes, ← hmiss]
        simp only [ind, true_and]
      rw [DirDataE.owned_eq hs (by decide), hz, howes', add_zero]
      cases hkind : T.kind <;> rw [hkind] at hk
      case writeMissShared =>
        have hn := DirDataE.not_mem_bits.mpr (hb hkind)
        simp [DirDataE.owned, hst, hkind, Finset.erase_eq_of_notMem hn]
      case writeShared =>
        have hn := DirDataE.mem_bits.mpr (hb' hkind)
        simp only [DirDataE.owned, hst, hkind, if_true, Option.elim_some, hreq,
          Finset.mem_singleton]
        rw [add_comm]
        exact ind_mem_erase hn
      all_goals cases hk

theorem Txn.Asks.out_type {T : Txn} {r : DirRegs} {m m' : CtrlMsg} {e : DirDataE} {t : DirTick}
    (h : T.Asks r m e t) (hm' : t.out = some m') : m'.mtype.opens = true := by
  cases h with
  | owner hk o a ho hregs hout =>
      rw [hout] at hm'
      cases hm'
      cases hkind : T.kind <;> rfl
  | sharers hk hs hm hb hregs hout =>
      rw [hout] at hm'
      split_ifs at hm'
      cases hm'
      rfl

theorem Txn.Acked.out_type {T : Txn} {m m' : CtrlMsg} {e : DirDataE} {t : DirTick}
    (h : T.Acked m e t) (hm' : t.out = some m') : m'.mtype.isAggack = true := by
  cases h with
  | last hmiss hstate hbits hcons hout =>
      rw [hout] at hm'
      split_ifs at hm' with hk
      cases hm'
      cases hkind : T.kind <;> rw [hkind] at hk <;> first | (cases hk; done) | rfl
  | more hk htracks hstate hout =>
      rw [hout] at hm'
      cases hm'

theorem CtrlMsg.askedBy_self {m : CtrlMsg} : m.askedBy n m.block = ind (n = m.reqClineNodeID) :=
  ind_congr ⟨fun hc => hc.2.symm, fun hc => ⟨rfl, hc.symm⟩⟩

/-- What an acknowledgement does to the right of node `n`. -/
theorem Txn.Acked.rights {T : Txn} {m : CtrlMsg} {e : DirDataE} {t : DirTick}
    (h : T.Acked m e t) (htracks : T.Tracks e) (hm : m.mtype = T.kind.ack)
    (hreq : m.reqClineNodeID = T.req) :
    ind (n ∈ t.dirData.owned (some (T.observe m t.out)))
      = ind (n ∈ e.owned (some T)) + m.forReq (·.isShipAck) n m.block
        + t.out.elim 0 (·.forReq (·.isGrant) n m.block) := by
  have hdirty := htracks.isDirty
  have hself := CtrlMsg.askedBy_self (n := n) (m := m)
  cases h with
  | last hmiss hstate hbits hcons hout =>
      have hown : t.dirData.owned (some (T.observe m t.out)) = t.dirData.bits := by
        refine DirDataE.owned_eq rfl ?_
        rw [hstate]
        split_ifs <;> decide
      rw [hown, hbits, hout, CtrlMsg.forReq, hm]
      cases hkind : T.kind
      case readMissDirty =>
        have hshape := htracks.shape
        rw [hkind] at hshape
        have hst : e.state = .sToShared := htracks.state.trans (by rw [hkind]; rfl)
        rw [DirDataE.owned_eq hst (by decide), hshape.2.2.1]
        simp only [if_true]
        rw [ind_mem_insert htracks.req, ← hreq, ← hself]
        rfl
      case writeMissDirty =>
        have hst : e.state = .sToDirty := hdirty.mpr (by rw [hkind]; decide)
        simp only [DirDataE.owned, hst, hkind, reduceCtorEq, if_false, if_true,
          Option.elim_some, Finset.mem_singleton, Finset.notMem_empty, ← hreq]
        rw [← hself, ind_false, zero_add]
        rfl
      case writeMissShared =>
        have hst : e.state = .sToDirty := hdirty.mpr (by rw [hkind]; decide)
        simp only [DirDataE.owned, hst, hkind, reduceCtorEq, if_false, if_true,
          Option.elim_some, Finset.mem_singleton, Finset.notMem_empty, ← hreq]
        rw [← hself, ind_false, zero_add]
        show _ = 0 + ((latch m e).toApp _).askedBy n m.block
        rw [zero_add]
        rfl
      case writeShared =>
        have hst : e.state = .sToDirty := hdirty.mpr (by rw [hkind]; decide)
        simp only [DirDataE.owned, hst, hkind, reduceCtorEq, if_false, if_true,
          Option.elim_some, Finset.mem_singleton, ← hreq]
        rfl
  | more hk htracks' hstate hout =>
      rw [hout, CtrlMsg.forReq, hm]
      have hst : e.state = .sToDirty :=
        hdirty.mpr (by intro hk'; rw [hk'] at hk; cases hk)
      have hown : t.dirData.owned (some (T.observe m none)) = e.owned (some T) := by
        simp only [DirDataE.owned, hstate.trans hst, hst, if_true, Option.elim_some,
          Txn.observe_kind, Txn.observe_req]
        rfl
      rw [hown]
      cases hkind : T.kind <;> rw [hkind] at hk <;> first | rfl | cases hk

/-- Everything on the directory's side that stands for a right of node `n` to block `b`. -/
def Ledger.holding (n : NodeId) (b : Block) : Ledger b :=
  .owning n b + .revoking n b + .asked (·.isEvictAck) n b

section Weights

@[simp] theorem Ledger.holding_flight (f : Flight) : (Ledger.holding n b).flight f
    = f.packet.msg.forReq (·.isShipAck) n b + f.packet.msg.forAgent (·.revokes) n b
      + f.packet.msg.forReq (·.isEvictAck) n b := rfl

@[simp] theorem Ledger.holding_cc (r : CcRegs) : (Ledger.holding n b).cc r = r.ships n b := rfl

@[simp] theorem Ledger.holding_dir (r : DirRegs) : (Ledger.holding n b).dir r = r.owes b n :=
  Nat.zero_add _

@[simp] theorem Ledger.holding_entry (e : DirDataE) (T : Option Txn) :
    (Ledger.holding n b).entry e T = ind (n ∈ e.owned T) := rfl

variable {c : RawMessageType → Bool}

@[simp] theorem Ledger.asked_flight (f : Flight) :
    (Ledger.asked c n b).flight f = f.packet.msg.forReq c n b := rfl

@[simp] theorem Ledger.asked_cc (r : CcRegs) : (Ledger.asked c n b).cc r = 0 := rfl

@[simp] theorem Ledger.asked_dir (r : DirRegs) : (Ledger.asked c n b).dir r = 0 := rfl

@[simp] theorem Ledger.asked_entry (e : DirDataE) (T : Option Txn) :
    (Ledger.asked c n b).entry e T = 0 := rfl

@[simp] theorem Ledger.holding_sent (k : Ticket) (out : Option CtrlMsg) :
    (Ledger.holding n b).sent k out = out.elim 0 (·.forReq (·.isShipAck) n b)
      + out.elim 0 (·.forAgent (·.revokes) n b) + out.elim 0 (·.forReq (·.isEvictAck) n b) := by
  cases out <;> rfl

@[simp] theorem Ledger.asked_sent (k : Ticket) (out : Option CtrlMsg) :
    (Ledger.asked c n b).sent k out = out.elim 0 (·.forReq c n b) := by
  cases out <;> rfl

/-- What goes out is in no class that excludes it. -/
theorem sent_forReq {d : RawMessageType → Bool} {out : Option CtrlMsg}
    (hout : ∀ m, out = some m → d m.mtype = true) (hcd : ∀ t, d t = true → c t = false) :
    out.elim 0 (·.forReq c n b) = 0 := by
  cases out with
  | none => rfl
  | some m => exact CtrlMsg.forReq_zero hcd (hout m rfl)

theorem sent_forAgent {d : RawMessageType → Bool} {out : Option CtrlMsg}
    (hout : ∀ m, out = some m → d m.mtype = true) (hcd : ∀ t, d t = true → c t = false) :
    out.elim 0 (·.forAgent c n b) = 0 := by
  cases out with
  | none => rfl
  | some m => exact CtrlMsg.forAgent_zero hcd (hout m rfl)

theorem CtrlMsg.forReq_of {m : CtrlMsg} {ty : RawMessageType} (h : m.mtype = ty) :
    m.forReq c n b = if c ty then m.askedBy n b else 0 := by
  rw [forReq, h]

theorem CtrlMsg.forAgent_of {m : CtrlMsg} {ty : RawMessageType} (h : m.mtype = ty) :
    m.forAgent c n b = if c ty then m.meantFor n b else 0 := by
  rw [forAgent, h]

end Weights

theorem FabricInv.CopyStepped.out_type {k : TxnKind} {r : DirRegs}
    {t : DirRegs × Option CtrlMsg} (h : FabricInv.CopyStepped k r t) (hk : k.isShared)
    {m : CtrlMsg} (hm : t.2 = some m) : m.mtype.isSharedOrder = true := by
  cases h with
  | stop hnone => cases hm
  | skip hn => cases hm
  | order n a hn hne =>
      cases hm
      cases k <;> first | (cases hk; done) | rfl

/-- The multicast turns a debt of its registers into an order. -/
theorem FabricInv.CopyStepped.owes {k : TxnKind} {r : DirRegs} {t : DirRegs × Option CtrlMsg}
    (h : FabricInv.CopyStepped k r t) (hf : r.regCopyFlag) (hk : k.isShared) :
    t.1.owes b n + t.2.elim 0 (·.forAgent (·.revokes) n b) = r.owes b n := by
  cases h with
  | stop hnone => simp [DirRegs.owes, hnone n]
  | skip hn => exact FabricInv.owes_clear_req
  | order o a hn hne =>
      have hrev : k.order.revokes = true := by
        cases k <;> first | (cases hk; done) | rfl
      rw [← FabricInv.owes_clear hf hn hne]
      show _ + CtrlMsg.forAgent _ n b (CtrlMsg.toAgent _ k.order o a) = _
      rw [CtrlMsg.forAgent, CtrlMsg.toAgent_mtype, if_pos hrev]
      rfl

/-- No internal step changes what a node holds, is about to be granted or about to lose. -/
theorem BlockStep.rights (h : BlockStep b s s') :
    s'.owning n b + s'.revoking n b + s'.releasing n b + s.granting n b
      = s.owning n b + s.revoking n b + s.releasing n b + s'.granting n b := by
  suffices hsuff : (Ledger.holding n b).value s' + (Ledger.asked (·.isGrant) n b).value s
      = (Ledger.holding n b).value s + (Ledger.asked (·.isGrant) n b).value s' by
    simp only [Ledger.holding, Ledger.value_add] at hsuff
    exact hsuff
  cases h with
  | elsewhere h => rw [h, h]
  | answered p e ty hb hin hm hk hr hans h =>
      subst hb
      have hl := h (.holding n _)
      have hg := h (.asked (·.isGrant) n _)
      have hrights := hans.rights (n := n) (T := s.txnOf p.msg.block)
      have hout := hans.isAnswer
      simp only [Ledger.holding_flight, Ledger.holding_entry, Ledger.asked_flight,
        Ledger.asked_entry] at hl hg
      rw [CtrlMsg.forReq_zero (by decide) hm, CtrlMsg.forReq_zero (by decide) hm,
        CtrlMsg.forAgent_zero (by decide) hm,
        CtrlMsg.forReq_zero (m := CtrlMsg.toApp _ _) (c := (·.isShipAck)) (by decide) hout,
        CtrlMsg.forAgent_zero (m := CtrlMsg.toApp _ _) (by decide) hout] at hl
      rw [CtrlMsg.forReq_zero (by decide) hm] at hg
      omega
  | opened p t hb hin hm hk hr hstable htracks hasks h =>
      subst hb
      have hl := h (.holding n _)
      have hg := h (.asked (·.isGrant) n _)
      have hrights := hasks.rights (n := n) (U := s.txnOf p.msg.block) rfl hr htracks
      have hout := fun m (hm : _ = some m) => hasks.out_type hm
      simp only [Ledger.holding_sent, Ledger.holding_flight, Ledger.holding_entry,
        Ledger.holding_dir, Ledger.asked_sent, Ledger.asked_flight, Ledger.asked_entry,
        Ledger.asked_dir] at hl hg
      rw [CtrlMsg.forReq_zero (by decide) hm, CtrlMsg.forReq_zero (by decide) hm,
        CtrlMsg.forAgent_zero (by decide) hm, sent_forReq hout (by decide),
        sent_forReq hout (by decide)] at hl
      rw [CtrlMsg.forReq_zero (by decide) hm, sent_forReq hout (by decide)] at hg
      omega
  | acked p T t hb hin hT hm htracks ha hack h =>
      subst hb
      have hl := h (.holding n _)
      have hg := h (.asked (·.isGrant) n _)
      have hrights := hack.rights (n := n) htracks hm
        (congrArg Header.reqClineNodeID hT.2.2.2).symm
      have hout := fun m (hm : _ = some m) => hack.out_type hm
      have hin : p.msg.mtype.isAck := hm ▸ FabricInv.ack_isAck _
      simp only [Ledger.holding_sent, Ledger.holding_flight, Ledger.holding_entry,
        Ledger.asked_sent, Ledger.asked_flight, Ledger.asked_entry] at hl hg
      rw [CtrlMsg.forReq_zero (c := (·.isEvictAck)) (by decide) hin,
        CtrlMsg.forAgent_zero (by decide) hin, sent_forReq (c := (·.isShipAck)) hout (by decide),
        sent_forAgent hout (by decide), sent_forReq (c := (·.isEvictAck)) hout (by decide)] at hl
      rw [CtrlMsg.forReq_zero (by decide) hin] at hg
      omega
  | delivered p T a hb hin hT hm hk h =>
      subst hb
      have hl := h (.holding n _)
      have hg := h (.asked (·.isGrant) n _)
      have ho : p.msg.mtype.isOrder := hm ▸ FabricInv.order_isOrder _
      have hsys : (p.msg.forThread .sys).mtype.isOrder := ho
      have hack : ((p.msg.forThread .sys).toHome T.kind.ack).mtype.isSharedAck := by
        cases hkind : T.kind <;> rw [hkind] at hk <;> first | (cases hk; done) | rfl
      simp only [Ledger.holding_flight, Ledger.asked_flight] at hl hg
      rw [CtrlMsg.forReq_zero (by decide) ho, CtrlMsg.forReq_zero (by decide) ho,
        CtrlMsg.forReq_zero (by decide) hsys, CtrlMsg.forReq_zero (by decide) hsys,
        CtrlMsg.forReq_zero (by decide) hack, CtrlMsg.forReq_zero (by decide) hack,
        CtrlMsg.forAgent_zero (by decide) hack] at hl
      rw [CtrlMsg.forReq_zero (by decide) ho, CtrlMsg.forReq_zero (by decide) hsys,
        CtrlMsg.forReq_zero (by decide) hack] at hg
      change _ + (0 + p.msg.forAgent (·.revokes) n _ + 0) = _ + (0 + p.msg.forAgent (·.revokes) n _ + 0 + _) at hl
      omega
  | shipped p T a hb hin hT hm hk h =>
      subst hb
      have hl := h (.holding n _)
      have hg := h (.asked (·.isGrant) n _)
      have ho : p.msg.mtype.isOrder := hm ▸ FabricInv.order_isOrder _
      have hsys : (p.msg.forThread .sys).mtype.isOrder := ho
      have hans : ((p.msg.forThread .sys).toRequester T.kind.grant).mtype.isGrant
          ∧ ((p.msg.forThread .sys).toRequester T.kind.grant).mtype.isAnswer := by
        cases hkind : T.kind <;> rw [hkind] at hk <;> first | (cases hk; done) | exact ⟨rfl, rfl⟩
      have hgrant : ((p.msg.forThread .sys).toRequester T.kind.grant).forReq (·.isGrant) n
          p.msg.block = p.msg.askedBy n p.msg.block := if_pos hans.1
      have hships : (⟨true, p.msg.forThread .sys⟩ : CcRegs).ships n p.msg.block
          = p.msg.askedBy n p.msg.block := rfl
      simp only [Ledger.holding_flight, Ledger.holding_cc, Ledger.asked_flight, Ledger.asked_cc]
        at hl hg
      rw [CtrlMsg.forReq_zero (by decide) ho, CtrlMsg.forReq_zero (by decide) ho,
        CtrlMsg.forReq_zero (by decide) hsys, CtrlMsg.forReq_zero (by decide) hsys,
        CtrlMsg.forReq_zero (c := (·.isShipAck)) (by decide) hans.2,
        CtrlMsg.forReq_zero (c := (·.isEvictAck)) (by decide) hans.1,
        CtrlMsg.forAgent_zero (by decide) hans.2, hships] at hl
      rw [CtrlMsg.forReq_zero (by decide) ho, CtrlMsg.forReq_zero (by decide) hsys, hgrant] at hg
      change _ + (0 + p.msg.forAgent (·.revokes) n _ + 0)
        = _ + (0 + p.msg.forAgent (·.revokes) n _ + 0 + _ + _) at hl
      omega
  | passed p hb hin hm h =>
      have hl := h (.holding n _)
      have hg := h (.asked (·.isGrant) n _)
      simp only [Ledger.holding_flight, Ledger.asked_flight] at hl hg
      change _ + (p.msg.forReq _ n b + p.msg.forAgent _ n b + p.msg.forReq _ n b)
        = _ + (p.msg.forReq (·.isShipAck) n b + p.msg.forAgent (·.revokes) n b
          + p.msg.forReq (·.isEvictAck) n b) at hl
      change _ + p.msg.forReq _ n b = _ + p.msg.forReq (·.isGrant) n b at hg
      omega
  | shipAcked k r T hb hf hT hm hk h =>
      subst hb
      have hl := h (.holding n _)
      have hg := h (.asked (·.isGrant) n _)
      have hack : (r.regCtrlMsg.toHome T.kind.ack).mtype.isShipAck := by
        cases hkind : T.kind <;> rw [hkind] at hk <;> first | (cases hk; done) | rfl
      have hships : (r.regCtrlMsg.toHome T.kind.ack).forReq (·.isShipAck) n r.regCtrlMsg.block
          = r.ships n r.regCtrlMsg.block := by
        rw [CtrlMsg.forReq, if_pos hack, CcRegs.ships, if_pos hf]
        rfl
      simp only [Ledger.holding_flight, Ledger.holding_cc, Ledger.asked_flight, Ledger.asked_cc]
        at hl hg
      rw [hships, CtrlMsg.forAgent_zero (by decide) hack,
        CtrlMsg.forReq_zero (by decide) hack] at hl
      rw [CtrlMsg.forReq_zero (by decide) hack] at hg
      omega
  | copied k r t T hb hf hT hk hcopy h =>
      subst hb
      have hl := h (.holding n _)
      have hg := h (.asked (·.isGrant) n _)
      have hout : ∀ m, t.2 = some m → m.mtype.isSharedOrder = true :=
        fun m hm => hcopy.out_type hk hm
      have howes := hcopy.owes (n := n) (b := r.regCtrlMsg.block) hf hk
      simp only [Ledger.holding_sent, Ledger.holding_dir, Ledger.asked_sent, Ledger.asked_dir]
        at hl hg
      rw [sent_forReq hout (by decide), sent_forReq hout (by decide)] at hl
      rw [sent_forReq hout (by decide)] at hg
      omega

/-! ## The right to write -/

/-- Everything on the directory's side that stands for a right of node `n` to write block
`b`. -/
def Ledger.writeHolding (n : NodeId) (b : Block) : Ledger b :=
  .writeOwning n b + .meant (·.takesWrite) n b + .asked (·.isDirtyEvictAck) n b

section Weights

@[simp] theorem Ledger.writeHolding_flight (f : Flight) : (Ledger.writeHolding n b).flight f
    = f.packet.msg.forReq (·.isDirtyShipAck) n b + f.packet.msg.forAgent (·.takesWrite) n b
      + f.packet.msg.forReq (·.isDirtyEvictAck) n b := rfl

@[simp] theorem Ledger.writeHolding_cc (r : CcRegs) :
    (Ledger.writeHolding n b).cc r = r.shipsDirty n b := rfl

@[simp] theorem Ledger.writeHolding_dir (r : DirRegs) : (Ledger.writeHolding n b).dir r = 0 := rfl

@[simp] theorem Ledger.writeHolding_entry (e : DirDataE) (T : Option Txn) :
    (Ledger.writeHolding n b).entry e T = ind (e.state = .sDirty ∧ n ∈ e.bits) := rfl

@[simp] theorem Ledger.writeHolding_sent (k : Ticket) (out : Option CtrlMsg) :
    (Ledger.writeHolding n b).sent k out = out.elim 0 (·.forReq (·.isDirtyShipAck) n b)
      + out.elim 0 (·.forAgent (·.takesWrite) n b)
      + out.elim 0 (·.forReq (·.isDirtyEvictAck) n b) := by
  cases out <;> rfl

end Weights

/-- What an answer does to the right of node `n` to write. -/
theorem Answers.writes {m : CtrlMsg} {e e' : DirDataE} {ty : RawMessageType}
    (h : Answers m e e' ty) :
    ind (e'.state = .sDirty ∧ n ∈ e'.bits)
        + ((latch m e).toApp ty).forReq (·.isDirtyEvictAck) n m.block
      = ind (e.state = .sDirty ∧ n ∈ e.bits)
        + ((latch m e).toApp ty).forReq (·.isWriteGrant) n m.block := by
  have hask : ((latch m e).toApp ty).askedBy n m.block = ind (n = m.reqClineNodeID) :=
    CtrlMsg.askedBy_toApp
  have hz : ∀ {e : DirDataE} {st : RawState}, e.state = st → st ≠ .sDirty →
      ind (e.state = .sDirty ∧ n ∈ e.bits) = 0 :=
    fun hs hne => ind_of_not fun hc => hne (hs.symm.trans hc.1)
  cases h with
  | mCheckFail hs he => rw [he]; rfl
  | bitmapCheckFail hs hb he => rw [he]; rfl
  | readMiss hm hs hb hs' hb' =>
      have hz' : ind (e.state = .sDirty ∧ n ∈ e.bits) = 0 := by
        rcases hs with hs | hs <;> exact hz hs (by decide)
      rw [hz', hz hs' (by decide)]
      rfl
  | writeMiss hm hs hb hs' hb' =>
      rw [hz hs (by decide), hs', hb']
      simp only [true_and, Finset.mem_singleton, ← hask]
      show _ + 0 = 0 + _
      rw [add_zero, zero_add]
      rfl
  | writeSharedOnly hm hs hb hs' hb' =>
      rw [hz hs (by decide), hs', hb']
      simp only [true_and, Finset.mem_singleton, ← hask]
      show _ + 0 = 0 + _
      rw [add_zero, zero_add]
      rfl
  | evictShared hm hs hb hs' hb' =>
      have hz' : ind (e'.state = .sDirty ∧ n ∈ e'.bits) = 0 := by
        rcases hs' with hs' | hs' <;> exact hz hs' (by decide)
      rw [hz', hz hs (by decide)]
      rfl
  | evictDirty hm hs hb hs' hb' =>
      rw [hz hs' (by decide), hs, hb]
      simp only [true_and, Finset.mem_singleton, ← hask]
      show 0 + _ = _ + 0
      rw [add_zero, zero_add]
      rfl

theorem ind_dirty_zero {e : DirDataE} (h : e.state ≠ .sDirty) :
    ind (e.state = .sDirty ∧ n ∈ e.bits) = 0 :=
  ind_of_not fun hc => h hc.1

theorem Txn.Tracks.not_dirty {T : Txn} {e : DirDataE} (h : T.Tracks e) : e.state ≠ .sDirty := by
  rw [h.state]
  cases T.kind <;> decide

/-- What a request that opens a transaction does to the right of node `n` to write. -/
theorem Txn.Asks.writes {T : Txn} {r : DirRegs} {m : CtrlMsg} {e : DirDataE} {t : DirTick}
    (h : T.Asks r m e t) :
    t.out.elim 0 (·.forAgent (·.takesWrite) n m.block) = ind (e.state = .sDirty ∧ n ∈ e.bits) := by
  cases h with
  | owner hk o a ho hregs hout hs hbits =>
      have hord : T.kind.order.takesWrite = true := by
        cases hkind : T.kind <;> rw [hkind] at hk <;> first | rfl | cases hk
      rw [hout, hs, hbits]
      show CtrlMsg.forAgent _ n _ (CtrlMsg.toAgent _ T.kind.order o a) = _
      rw [CtrlMsg.forAgent, CtrlMsg.toAgent_mtype, if_pos hord]
      exact ind_congr ⟨fun hc => ⟨rfl, Finset.mem_singleton.mpr hc.2.symm⟩,
        fun hc => ⟨rfl, (Finset.mem_singleton.mp hc.2).symm⟩⟩
  | sharers hk hs hm hb hregs hout hb' =>
      rw [ind_dirty_zero (by rw [hs]; decide), hout]
      split_ifs <;> rfl

/-- What an acknowledgement does to the right of node `n` to write. -/
theorem Txn.Acked.writes {T : Txn} {m : CtrlMsg} {e : DirDataE} {t : DirTick}
    (h : T.Acked m e t) (htracks : T.Tracks e) (hm : m.mtype = T.kind.ack)
    (hreq : m.reqClineNodeID = T.req) :
    ind (t.dirData.state = .sDirty ∧ n ∈ t.dirData.bits)
      = m.forReq (·.isDirtyShipAck) n m.block
        + t.out.elim 0 (·.forReq (·.isWriteGrant) n m.block) := by
  have hself := CtrlMsg.askedBy_self (n := n) (m := m)
  cases h with
  | last hmiss hstate hbits hcons hout =>
      rw [CtrlMsg.forReq, hm, hout, hbits, hstate]
      cases hkind : T.kind
      case readMissDirty =>
        exact ind_of_not fun hc => by cases hc.1
      case writeMissDirty =>
        simp only [reduceCtorEq, if_false, true_and, Finset.mem_singleton, ← hreq]
        rw [← hself]
        rfl
      case writeMissShared | writeShared =>
        simp only [reduceCtorEq, if_false, true_and, Finset.mem_singleton, ← hreq]
        rw [← hself]
        show _ = 0 + CtrlMsg.askedBy n m.block _
        rw [zero_add]
        rfl
  | more hk htracks' hstate hout =>
      rw [ind_dirty_zero (by rw [hstate]; exact htracks.not_dirty), hout, CtrlMsg.forReq, hm]
      cases hkind : T.kind <;> rw [hkind] at hk <;> first | (cases hk; done) | rfl

/-- No internal step changes what a node may write, is about to be granted to write, or is
about to be told not to. -/
theorem BlockStep.writes (h : BlockStep b s s') :
    (Ledger.writeHolding n b).value s' + s.writeGranting n b
      = (Ledger.writeHolding n b).value s + s'.writeGranting n b := by
  unfold Fabric.writeGranting
  cases h with
  | elsewhere h => rw [h, h]
  | answered p e ty hb hin hm hk hr hans h =>
      subst hb
      have hl := h (.writeHolding n _)
      have hg := h (.asked (·.isWriteGrant) n _)
      have hwrites := hans.writes (n := n)
      have hout := hans.isAnswer
      simp only [Ledger.writeHolding_flight, Ledger.writeHolding_entry, Ledger.asked_flight,
        Ledger.asked_entry] at hl hg
      rw [CtrlMsg.forReq_zero (by decide) hm, CtrlMsg.forReq_zero (by decide) hm,
        CtrlMsg.forAgent_zero (by decide) hm,
        CtrlMsg.forReq_zero (m := CtrlMsg.toApp _ _) (c := (·.isDirtyShipAck)) (by decide) hout,
        CtrlMsg.forAgent_zero (m := CtrlMsg.toApp _ _) (by decide) hout] at hl
      rw [CtrlMsg.forReq_zero (by decide) hm] at hg
      omega
  | opened p t hb hin hm hk hr hstable htracks hasks h =>
      subst hb
      have hl := h (.writeHolding n _)
      have hg := h (.asked (·.isWriteGrant) n _)
      have hwrites := hasks.writes (n := n)
      have hout := fun m (hm : _ = some m) => hasks.out_type hm
      simp only [Ledger.writeHolding_sent, Ledger.writeHolding_flight, Ledger.writeHolding_entry,
        Ledger.writeHolding_dir, Ledger.asked_sent, Ledger.asked_flight, Ledger.asked_entry,
        Ledger.asked_dir] at hl hg
      rw [CtrlMsg.forReq_zero (by decide) hm, CtrlMsg.forReq_zero (by decide) hm,
        CtrlMsg.forAgent_zero (by decide) hm, sent_forReq hout (by decide),
        sent_forReq hout (by decide), ind_dirty_zero htracks.not_dirty] at hl
      rw [CtrlMsg.forReq_zero (by decide) hm, sent_forReq hout (by decide)] at hg
      omega
  | acked p T t hb hin hT hm htracks ha hack h =>
      subst hb
      have hl := h (.writeHolding n _)
      have hg := h (.asked (·.isWriteGrant) n _)
      have hwrites := hack.writes (n := n) htracks hm
        (congrArg Header.reqClineNodeID hT.2.2.2).symm
      have hout := fun m (hm : _ = some m) => hack.out_type hm
      have hin : p.msg.mtype.isAck := hm ▸ FabricInv.ack_isAck _
      simp only [Ledger.writeHolding_sent, Ledger.writeHolding_flight, Ledger.writeHolding_entry,
        Ledger.asked_sent, Ledger.asked_flight, Ledger.asked_entry] at hl hg
      rw [CtrlMsg.forReq_zero (c := (·.isDirtyEvictAck)) (by decide) hin,
        CtrlMsg.forAgent_zero (by decide) hin,
        sent_forReq (c := (·.isDirtyShipAck)) hout (by decide),
        sent_forAgent hout (by decide), sent_forReq (c := (·.isDirtyEvictAck)) hout (by decide),
        ind_dirty_zero htracks.not_dirty] at hl
      rw [CtrlMsg.forReq_zero (by decide) hin] at hg
      omega
  | delivered p T a hb hin hT hm hk h =>
      subst hb
      have hl := h (.writeHolding n _)
      have hg := h (.asked (·.isWriteGrant) n _)
      have ho : p.msg.mtype.isOrder := hm ▸ FabricInv.order_isOrder _
      have hsys : (p.msg.forThread .sys).mtype.isOrder := ho
      have hack : ((p.msg.forThread .sys).toHome T.kind.ack).mtype.isSharedAck := by
        cases hkind : T.kind <;> rw [hkind] at hk <;> first | (cases hk; done) | rfl
      simp only [Ledger.writeHolding_flight, Ledger.asked_flight] at hl hg
      rw [CtrlMsg.forReq_zero (by decide) ho, CtrlMsg.forReq_zero (by decide) ho,
        CtrlMsg.forReq_zero (by decide) hsys, CtrlMsg.forReq_zero (by decide) hsys,
        CtrlMsg.forReq_zero (by decide) hack, CtrlMsg.forReq_zero (by decide) hack,
        CtrlMsg.forAgent_zero (by decide) hack] at hl
      rw [CtrlMsg.forReq_zero (by decide) ho, CtrlMsg.forReq_zero (by decide) hsys,
        CtrlMsg.forReq_zero (by decide) hack] at hg
      change _ + (0 + p.msg.forAgent (·.takesWrite) n _ + 0)
        = _ + (0 + p.msg.forAgent (·.takesWrite) n _ + 0 + _) at hl
      omega
  | shipped p T a hb hin hT hm hk h =>
      subst hb
      have hl := h (.writeHolding n _)
      have hg := h (.asked (·.isWriteGrant) n _)
      have ho : p.msg.mtype.isOrder := hm ▸ FabricInv.order_isOrder _
      have hsys : (p.msg.forThread .sys).mtype.isOrder := ho
      have hans : ((p.msg.forThread .sys).toRequester T.kind.grant).mtype.isGrant
          ∧ ((p.msg.forThread .sys).toRequester T.kind.grant).mtype.isAnswer := by
        cases hkind : T.kind <;> rw [hkind] at hk <;> first | (cases hk; done) | exact ⟨rfl, rfl⟩
      -- a write grant goes out just when the register will report one
      have hships : (⟨true, p.msg.forThread .sys⟩ : CcRegs).shipsDirty n p.msg.block
          = ((p.msg.forThread .sys).toRequester T.kind.grant).forReq (·.isWriteGrant) n
            p.msg.block := by
        cases hkind : T.kind <;> rw [hkind] at hk hm <;> first | (cases hk; done) | skip
        all_goals
          have hm' : (p.msg.forThread .sys).mtype = _ := hm
          simp only [CcRegs.shipsDirty, hm', CtrlMsg.forReq]
          rfl
      simp only [Ledger.writeHolding_flight, Ledger.writeHolding_cc, Ledger.asked_flight,
        Ledger.asked_cc] at hl hg
      rw [CtrlMsg.forReq_zero (by decide) ho, CtrlMsg.forReq_zero (by decide) ho,
        CtrlMsg.forReq_zero (by decide) hsys, CtrlMsg.forReq_zero (by decide) hsys,
        CtrlMsg.forReq_zero (c := (·.isDirtyShipAck)) (by decide) hans.2,
        CtrlMsg.forReq_zero (c := (·.isDirtyEvictAck)) (by decide) hans.1,
        CtrlMsg.forAgent_zero (by decide) hans.2, hships] at hl
      rw [CtrlMsg.forReq_zero (by decide) ho, CtrlMsg.forReq_zero (by decide) hsys] at hg
      change _ + (0 + p.msg.forAgent (·.takesWrite) n _ + 0)
        = _ + (0 + p.msg.forAgent (·.takesWrite) n _ + 0 + _ + _) at hl
      omega
  | passed p hb hin hm h =>
      have hl := h (.writeHolding n _)
      have hg := h (.asked (·.isWriteGrant) n _)
      simp only [Ledger.writeHolding_flight, Ledger.asked_flight] at hl hg
      change _ + (p.msg.forReq _ n b + p.msg.forAgent _ n b + p.msg.forReq _ n b)
        = _ + (p.msg.forReq (·.isDirtyShipAck) n b + p.msg.forAgent (·.takesWrite) n b
          + p.msg.forReq (·.isDirtyEvictAck) n b) at hl
      change _ + p.msg.forReq _ n b = _ + p.msg.forReq (·.isWriteGrant) n b at hg
      omega
  | shipAcked k r T hb hf hT hm hk h =>
      subst hb
      have hl := h (.writeHolding n _)
      have hg := h (.asked (·.isWriteGrant) n _)
      have hack : (r.regCtrlMsg.toHome T.kind.ack).mtype.isShipAck := by
        cases hkind : T.kind <;> rw [hkind] at hk <;> first | (cases hk; done) | rfl
      have hships : (r.regCtrlMsg.toHome T.kind.ack).forReq (·.isDirtyShipAck) n
          r.regCtrlMsg.block = r.shipsDirty n r.regCtrlMsg.block := by
        cases hkind : T.kind <;> rw [hkind] at hk hm <;> first | (cases hk; done) | skip
        all_goals
          simp only [CcRegs.shipsDirty, hm, hf, CtrlMsg.forReq]
          rfl
      simp only [Ledger.writeHolding_flight, Ledger.writeHolding_cc, Ledger.asked_flight,
        Ledger.asked_cc] at hl hg
      rw [hships, CtrlMsg.forAgent_zero (by decide) hack,
        CtrlMsg.forReq_zero (by decide) hack] at hl
      rw [CtrlMsg.forReq_zero (by decide) hack] at hg
      omega
  | copied k r t T hb hf hT hk hcopy h =>
      subst hb
      have hl := h (.writeHolding n _)
      have hg := h (.asked (·.isWriteGrant) n _)
      have hout : ∀ m, t.2 = some m → m.mtype.isSharedOrder = true :=
        fun m hm => hcopy.out_type hk hm
      simp only [Ledger.writeHolding_sent, Ledger.writeHolding_dir, Ledger.asked_sent,
        Ledger.asked_dir] at hl hg
      rw [sent_forReq hout (by decide), sent_forReq hout (by decide),
        sent_forAgent hout (by decide)] at hl
      rw [sent_forReq hout (by decide)] at hg
      omega

end Conservation

end Ting
