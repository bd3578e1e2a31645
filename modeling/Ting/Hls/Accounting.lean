/-
# `Ting.Hls.Accounting` — what the directory guarantees

Two readings of the invariant of the fabric.  `dirEntry_invariant`: in every reachable state
bitmap, count and state of every entry fit together, also while a transaction is pending.
`ack_accounting`: an acknowledgement is consumed by the transaction that elicited it and by
no other, and an aggregated grant goes out once per transaction, when every sharer other
than the requester has acknowledged once.

The runs are those of the open fabric: the hosts may send any requests at any time, and the
network delivers in any order.
-/
import Ting.Hls.FabricStep

namespace Ting

open Fabric

/-! ## The entry -/

/-- Bitmap, count and state of an entry `e`, when `T` is the record of the transaction last
started on its block.  `T.targets` are the nodes other than the requester that held the
block when it started, `T.missing` those of them whose acknowledgement is still missing. -/
structure EntryInvariant (e : DirDataE) (T : Option Txn) : Prop where
  unshared : e.state = .sUnshared ↔ e.bits = ∅ ∧ e.replicaCount = 0
  shared : e.state = .sShared → e.replicaCount.toNat = e.bits.card ∧ 1 ≤ e.replicaCount.toNat
  dirty : e.state = .sDirty → e.bits.card = 1 ∧ e.replicaCount = 1
  toUnshared : e.state ≠ .sToUnshared
  toShared : e.state = .sToShared → ∃ t o, T = some t ∧ t.kind = .readMissDirty ∧
    t.targets = {o} ∧ e.bits = {o} ∧ e.replicaCount = 1
  toDirty : e.state = .sToDirty → ∃ t, T = some t ∧
    (t.kind = .writeMissDirty ∧ (∃ o, t.targets = {o} ∧ e.bits = {o}) ∧ e.replicaCount = 1 ∨
      t.kind = .writeMissShared ∧ e.replicaCount.toNat = t.missing.card ∧
        e.bits = t.missing ∪ (if t.acked = [] then ∅ else {t.req}) ∨
      t.kind = .writeShared ∧ e.replicaCount.toNat = t.missing.card + 1 ∧
        e.bits = insert t.req t.missing)

/-- A tracked entry has replicas. -/
theorem Txn.Tracks.bits_nonempty {e : DirDataE} {t : Txn} (h : t.Tracks e) : e.bits.Nonempty := by
  obtain ⟨n, hn⟩ := h.missing
  have hshape := h.shape
  have htarget : n ∈ t.targets := Finset.mem_of_mem_filter n hn
  cases hkind : t.kind <;> rw [hkind] at hshape
  case readMissDirty | writeMissDirty =>
    exact ⟨n, by rw [hshape.2.2.1]; exact htarget⟩
  case writeMissShared => exact ⟨n, by rw [hshape.1]; exact Finset.mem_union_left _ hn⟩
  case writeShared => exact ⟨n, by rw [hshape.1]; exact Finset.mem_insert_of_mem hn⟩

theorem DirDataE.Consistent.entryInvariant {e : DirDataE} {T : Option Txn}
    (h : e.Consistent T) : EntryInvariant e T where
  unshared := by
    refine ⟨h.unshared, fun ⟨hbits, hcount⟩ => ?_⟩
    cases hs : e.state
    case sUnshared => rfl
    case sShared => exact absurd (h.shared hs).2 (by simp [hbits])
    case sDirty => exact absurd (h.dirty hs).1 (by simp [hbits])
    case sToUnshared => exact absurd hs h.not_toUnshared
    case sToShared | sToDirty =>
      obtain ⟨t, -, ht⟩ := h.tracks (by rw [hs]; rfl)
      exact absurd ht.bits_nonempty (by simp [hbits])
  shared := fun hs => by
    obtain ⟨hcount, hpos⟩ := h.shared hs
    exact ⟨hcount, hcount ▸ hpos⟩
  dirty := h.dirty
  toUnshared := h.not_toUnshared
  toShared := fun hs => by
    obtain ⟨t, ht, htracks⟩ := h.tracks (by rw [hs]; rfl)
    have hstate := htracks.state
    have hshape := htracks.shape
    rw [hs] at hstate
    cases hkind : t.kind <;> rw [hkind] at hstate hshape <;> cases hstate
    obtain ⟨o, ho⟩ := Finset.card_eq_one.mp hshape.2.1
    exact ⟨t, o, ht, hkind, ho, hshape.2.2.1.trans ho, hshape.2.2.2⟩
  toDirty := fun hs => by
    obtain ⟨t, ht, htracks⟩ := h.tracks (by rw [hs]; rfl)
    have hstate := htracks.state
    have hshape := htracks.shape
    rw [hs] at hstate
    refine ⟨t, ht, ?_⟩
    cases hkind : t.kind <;> rw [hkind] at hstate hshape
    case readMissDirty => cases hstate
    case writeMissDirty =>
      obtain ⟨o, ho⟩ := Finset.card_eq_one.mp hshape.2.1
      exact .inl ⟨rfl, ⟨o, ho, hshape.2.2.1.trans ho⟩, hshape.2.2.2⟩
    case writeMissShared => exact .inr (.inl ⟨rfl, hshape.2, hshape.1⟩)
    case writeShared => exact .inr (.inr ⟨rfl, hshape.2, hshape.1⟩)

/-- **Directory entry invariant.** -/
theorem dirEntry_invariant {qNum : ℕ} {s : Fabric} (h : (fabric qNum).Reachable s) (b : Block) :
    EntryInvariant (s.dir b) (s.txnOf b) :=
  ((fabric_inv h).consistent b).entryInvariant

/-! ## A run -/

/-- A fabric after `INIT_DIR`, with every uninitialised field zero. -/
def Fabric.start : Fabric where
  dir b := ⟨0, b.index, fun _ => false, .sUnshared, 0, fun _ => 0⟩
  dirRegs _ := ⟨false, ⟨.initDir, 0, 0, 0, 0, 0, 0, 0, 0, 0, fun _ => false, 0, 0, .app, 0, 0⟩,
    ⟨0, 0, fun _ => false, .sUnshared, 0, fun _ => 0⟩⟩
  dirTicket _ := ⟨0, .initDir⟩
  ccRegs _ := ⟨false, ⟨.initDir, 0, 0, 0, 0, 0, 0, 0, 0, 0, fun _ => false, 0, 0, .app, 0, 0⟩⟩
  ccTicket _ := ⟨0, .initDir⟩
  regQId _ := 0
  flights := []
  nextId := 0
  txns _ := none
  current _ := none

theorem Fabric.start_init : Fabric.Init Fabric.start :=
  ⟨fun _ => ⟨rfl, rfl, fun _ => rfl⟩, fun _ => rfl, fun _ => rfl, fun _ => rfl, rfl, fun _ => rfl,
    fun _ => rfl⟩

/-- A request of thread 0 of node `n` for block 7 of node 0. -/
def request (t : RawMessageType) (n : NodeId) : CtrlMsg :=
  ⟨t, n, 0, 4096, 0, 1792, 0, 0, 0, 7, fun _ => false, 0, 0, .app, 0, 0⟩

/-- Nodes 1 and 2 read a block of node 0, node 3 write-misses it, and one of the two sharers
has acknowledged. -/
def writeMissRun : List FabricAction :=
  [.inject (request .rReadMiss 1), .inject (request .rReadMiss 2), .dirTick 0, .dirTick 0,
    .inject (request .rWriteMiss 3), .dirTick 2, .dirCopy 0, .dirCopy 0, .dirCopy 0, .ccTick 3,
    .dirTick 5]

/-- The state that run ends in: one of the two acknowledgements is still missing. -/
def writeMissState : Fabric :=
  ((fabric 8).run writeMissRun Fabric.start).get (by decide)

theorem writeMissState_reachable : (fabric 8).Reachable writeMissState :=
  .of_run (.init Fabric.start_init) (Option.some_get _).symm

theorem dirEntry_invariant_writeMiss :
    EntryInvariant (writeMissState.dir ⟨0, 7⟩) (writeMissState.txnOf ⟨0, 7⟩) :=
  dirEntry_invariant writeMissState_reachable ⟨0, 7⟩

/-! ## Acknowledgements and aggregated grants -/

/-- The acknowledgement `p` that has reached the directory belongs to the transaction pending
on its block: its ticket is that of the transaction last started there, the entry is in the
state in which that transaction waits for just this type, and its sender is a target that
has not acknowledged before. -/
def AckExpected (s : Fabric) (p : Packet) : Prop :=
  ∃ T, s.current p.msg.block = some p.ticket.id ∧ s.txns p.ticket.id = some T ∧
    T.ticket = p.ticket ∧ T.header = p.msg.header ∧ p.msg.mtype = T.kind.ack ∧
    awaitedIn p.msg.mtype = some (s.dir p.msg.block).state ∧
    p.msg.agentClineNodeID ∈ T.targets ∧ p.msg.agentClineNodeID ∉ T.acked

/-- The aggregated grants of transaction `T` so far: none while it is pending, exactly one
afterwards, and then every sharer other than the requester has acknowledged exactly once. -/
def GrantedOnce (s : Fabric) (i : ℕ) (T : Txn) : Prop :=
  (s.current T.header.block = some i ∧ (s.dir T.header.block).state.isTransient ∧
      T.aggacks = 0) ∨
    (T.aggacks = 1 ∧ T.acked.Nodup ∧ ∀ n, n ∈ T.acked ↔ n ∈ T.targets)

/-- When the directory answers message `p` with an aggregated grant, `p` is the
acknowledgement of a pending shared transaction that has emitted none, and every target
other than the sender of `p` has acknowledged before. -/
def GrantEarned (s : Fabric) (p : Packet) (m : CtrlMsg) : Prop :=
  ∃ T, s.txns p.ticket.id = some T ∧ T.kind.isShared ∧ p.msg.mtype = T.kind.ack ∧
    m.mtype = T.kind.grant ∧ m.header = T.header ∧ T.aggacks = 0 ∧
    ∀ n ∈ T.targets, n ∈ T.acked ∨ n = p.msg.agentClineNodeID

theorem FabricInv.ackExpected {s : Fabric} (h : FabricInv s) {i : ℕ} {p : Packet}
    (hp : s.flights[i]? = some ⟨.net, p⟩) (hm : p.msg.mtype.isAgent2Dir) : AckExpected s p := by
  have hack : p.msg.mtype.isAck := by
    rcases (routed_toDir (h.routed _ (mem_of_getElem? hp)) (by simp [RawMessageType.toDir, hm])).2
      with ⟨hq, -⟩ | hq
    · cases ht : p.msg.mtype <;> rw [ht] at hq hm <;> first | (cases hq; done) | cases hm
    · exact hq
  obtain ⟨T, hT, hmT⟩ := h.ack_belongs hp hack
  obtain ⟨hcur, htxn⟩ := h.belongs_current hT
  have hmem := h.mem_missing (mem_of_getElem? hp) rfl (by simp [CtrlMsg.isDebt, hack])
  rw [(h.tracks hT).2] at hmem
  obtain ⟨htarget, hnew⟩ := Finset.mem_filter.mp hmem
  refine ⟨T, hcur, htxn, hT.2.2.1, hT.2.2.2, hmT, ?_, htarget, hnew⟩
  rw [hT.2.1, hmT]
  cases T.kind <;> rfl

theorem FabricInv.grantedOnce {s : Fabric} (h : FabricInv s) {i : ℕ} {T : Txn}
    (hT : s.txns i = some T) (hk : T.kind.isShared) : GrantedOnce s i T := by
  rcases h.settled i T hT with ⟨hcur, ht⟩ | ⟨hnodup, hall, hagg⟩
  · obtain ⟨T', hT', htracks⟩ := (h.consistent T.header.block).tracks ht
    have : T' = T := by
      rw [txnOf, hcur] at hT'
      exact (Option.some.inj (hT.symm.trans hT')).symm
    subst this
    exact .inl ⟨hcur, ht, htracks.aggacks⟩
  · rw [hk] at hagg
    exact .inr ⟨hagg, hnodup, hall⟩

theorem FabricInv.grantEarned {s : Fabric} (h : FabricInv s) {i : ℕ} {p : Packet} {m : CtrlMsg}
    (hp : s.flights[i]? = some ⟨.net, p⟩) (hd : p.msg.mtype.toDir)
    (hr : (s.dirRegs p.msg.dstNodeId).regCopyFlag = false) (hout : (s.tick p).out = some m)
    (hm : m.mtype.isAggack) : GrantEarned s p m := by
  have hticked := h.dirTicked hp hd hr
  generalize s.afterDirTick i p = s' at hticked
  cases hticked with
  | answered hq hstay =>
      obtain ⟨ty, -, hty, hout'⟩ := (s.tick_case p).answer hq hstay
      rw [hout'] at hout
      cases hout
      rw [CtrlMsg.toApp_mtype, hty] at hm
      cases hm
  | opened hq hstable htrans =>
      obtain ⟨-, hasks⟩ := Txn.Tracks.start (h.consistent p.msg.block) hq (s.tick_case p) hstable
        htrans p.ticket
      cases hasks with
      | owner hk o a ho hregs hout' =>
          rw [hout'] at hout
          cases hout
          cases hkind : (Txn.start p.ticket p.msg (s.dir p.msg.block)).kind <;>
            rw [CtrlMsg.toAgent_mtype, hkind] at hm <;> cases hm
      | sharers hk hs hq' hb hregs hout' =>
          rw [hout'] at hout
          split_ifs at hout
          cases hout
          cases hm
  | acked T hT hmT htracks ha hack =>
      refine ⟨T, (h.belongs_current hT).2, ?_⟩
      cases hack with
      | last hlast hstate hbits hcons hout' =>
          rw [hout'] at hout
          split_ifs at hout with hk
          cases hout
          refine ⟨hk, hmT, rfl, hT.2.2.2.symm, htracks.aggacks, fun n hn => ?_⟩
          by_cases hin : n ∈ T.acked
          · exact .inl hin
          · have : n ∈ T.missing := Finset.mem_filter.mpr ⟨hn, hin⟩
            rw [hlast, Finset.mem_singleton] at this
            exact .inr this
      | more hk htr hstate hout' =>
          rw [hout'] at hout
          cases hout

/-- **Acknowledgement accounting.** -/
theorem ack_accounting {qNum : ℕ} {s : Fabric} (h : (fabric qNum).Reachable s) :
    (∀ (i : ℕ) (p : Packet), s.flights[i]? = some ⟨.net, p⟩ → p.msg.mtype.isAgent2Dir →
      AckExpected s p) ∧
    (∀ i T, s.txns i = some T → T.kind.isShared → GrantedOnce s i T) ∧
    (∀ (i : ℕ) (p : Packet) (m : CtrlMsg), s.flights[i]? = some ⟨.net, p⟩ →
      p.msg.mtype.toDir →
      (s.dirRegs p.msg.dstNodeId).regCopyFlag = false → (s.tick p).out = some m →
      m.mtype.isAggack → GrantEarned s p m) := by
  have hi := fabric_inv h
  exact ⟨fun _ _ hp => hi.ackExpected hp, fun _ _ hT => hi.grantedOnce hT,
    fun _ _ _ hp => hi.grantEarned hp⟩

theorem ack_accounting_writeMiss :
    (∀ (i : ℕ) (p : Packet), writeMissState.flights[i]? = some ⟨.net, p⟩ →
      p.msg.mtype.isAgent2Dir → AckExpected writeMissState p) ∧
    (∀ i T, writeMissState.txns i = some T → T.kind.isShared → GrantedOnce writeMissState i T) ∧
    (∀ (i : ℕ) (p : Packet) (m : CtrlMsg), writeMissState.flights[i]? = some ⟨.net, p⟩ →
      p.msg.mtype.toDir →
      (writeMissState.dirRegs p.msg.dstNodeId).regCopyFlag = false →
      (writeMissState.tick p).out = some m → m.mtype.isAggack → GrantEarned writeMissState p m) :=
  ack_accounting writeMissState_reachable

end Ting
