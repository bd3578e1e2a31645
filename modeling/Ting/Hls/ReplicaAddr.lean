/-
# `Ting.Hls.ReplicaAddr` — where the replicas are

Beside the bitmap, an entry keeps for every node the address of the buffer that holds its replica.
A miss writes the requester's address at once, before it is granted; the orders to the agents take
the address of the node they go to from the entry, or from the copy of it that the multicast works
on.  `Housing` is the fabric together with a record, for every block and node, of the buffer that
the node's last granted miss named, and this module shows that the entry agrees with it wherever a
bit is set, and that every order does.

The key is that a transaction only ever writes the address of a requester whose bit is clear.
-/
import Ting.Hls.Accounting

namespace Ting

open Total

/-! ## What a tick does with the addresses -/

section Tick

variable {r : DirRegs} {m : CtrlMsg} {e : DirDataE} {t : DirTick} {n : NodeId}

/-- The address of a node whose bit is set stays. -/
theorem DirCase.keeps_addr (hc : DirCase r m e t) (hn : e.dirGblockBitmap n = true) :
    t.dirData.agentClineAddr n = e.agentClineAddr n := by
  have hreq : e.dirGblockBitmap m.reqClineNodeID = false →
      Function.update e.agentClineAddr m.reqClineNodeID m.reqClineAddr n = e.agentClineAddr n := by
    intro hb
    refine Function.update_of_ne (fun h => ?_) _ _
    rw [h, hb] at hn
    cases hn
  cases hc with
  | readMiss _ _ hb => exact hreq hb
  | readMissDirty _ _ hb a => exact hreq hb
  | writeMiss _ _ hb => exact hreq hb
  | writeMissShared _ _ hb => exact hreq hb
  | writeMissDirty _ _ hb a => exact hreq hb
  | _ => rfl

/-- An acknowledgement writes no address. -/
theorem DirCase.ack_keeps_addr (hc : DirCase r m e t) (hm : m.mtype.isRequest = false) :
    t.dirData.agentClineAddr = e.agentClineAddr := by
  cases hc with
  | readMiss hq => rw [hq] at hm; cases hm
  | readMissDirty hq => rw [hq] at hm; cases hm
  | writeMiss hq => rw [hq] at hm; cases hm
  | writeMissShared hq => rw [hq] at hm; cases hm
  | writeMissDirty hq => rw [hq] at hm; cases hm
  | _ => rfl

/-- The registers stay, or a multicast begins on the message and the entry at hand. -/
theorem DirCase.regs_cases (hc : DirCase r m e t) :
    t.regs = r ∨ t.regs = ⟨true, latch m e, e⟩ := by
  cases hc with
  | writeMissShared => exact .inr rfl
  | writeSharedNotonly => exact .inr rfl
  | _ => exact .inl rfl

/-- The answers that grant a miss at once. -/
def RawMessageType.isMissAck : RawMessageType → Bool
  | dir2AppReadMissAckdata | dir2AppWriteMissAckdata => true
  | _ => false

/-- The acknowledgements that grant a miss. -/
def RawMessageType.acksMiss : RawMessageType → Bool
  | agent2DirReadMissDirtyAckdata | agent2DirWriteMissDirtyAck
  | agent2DirWriteMissSharedAck => true
  | _ => false

/-- A miss that is granted at once finds its bit clear, and its address is written. -/
theorem DirCase.granted (hc : DirCase r m e t) (ho : t.out.any (·.mtype.isMissAck)) :
    e.dirGblockBitmap m.reqClineNodeID = false ∧
      t.dirData.agentClineAddr m.reqClineNodeID = m.reqClineAddr := by
  cases hc with
  | readMiss _ _ hb => exact ⟨hb, Function.update_self _ _ _⟩
  | writeMiss _ _ hb => exact ⟨hb, Function.update_self _ _ _⟩
  | _ => cases ho

/-- A request sets no bit but that of a miss that is granted at once. -/
theorem DirCase.request_sets (hc : DirCase r m e t) (hm : m.mtype.isRequest)
    (hn : t.dirData.dirGblockBitmap n = true) :
    e.dirGblockBitmap n = true ∨ n = m.reqClineNodeID ∧ t.out.any (·.mtype.isMissAck) := by
  have hset : Function.update e.dirGblockBitmap m.reqClineNodeID true n = true →
      e.dirGblockBitmap n = true ∨ n = m.reqClineNodeID := by
    intro h
    rcases eq_or_ne n m.reqClineNodeID with rfl | hne
    · exact .inr rfl
    · exact .inl (by rwa [Function.update_of_ne hne] at h)
  cases hc with
  | readMiss => exact (hset hn).imp_right fun h => ⟨h, rfl⟩
  | writeMiss => exact (hset hn).imp_right fun h => ⟨h, rfl⟩
  | writeSharedOnly _ _ hb =>
      rcases hset hn with h | rfl
      · exact .inl h
      · exact .inl hb
  | evictShared | evictDirty =>
      left
      rcases eq_or_ne n m.reqClineNodeID with rfl | hne
      · cases (Function.update_self _ _ _).symm.trans hn
      · rwa [← Function.update_of_ne hne false e.dirGblockBitmap]
  | readMissDirtyAckdata hq => rw [hq] at hm; cases hm
  | writeMissDirtyAck hq => rw [hq] at hm; cases hm
  | sharedAckLast hq => rw [hq] at hm; cases hm
  | sharedAckMore hq => rw [hq] at hm; cases hm
  | notonlyAckLast hq => rw [hq] at hm; cases hm
  | notonlyAckMore hq => rw [hq] at hm; cases hm
  | _ => exact .inl hn

/-- An acknowledgement sets no bit but that of its requester. -/
theorem DirCase.ack_sets (hc : DirCase r m e t) (hm : m.mtype.isRequest = false)
    (hn : t.dirData.dirGblockBitmap n = true) :
    e.dirGblockBitmap n = true ∨ n = m.reqClineNodeID := by
  rcases eq_or_ne n m.reqClineNodeID with rfl | hne
  · exact .inr rfl
  · left
    have hset : ∀ k, Function.update (Function.update e.dirGblockBitmap m.reqClineNodeID true) k
        false n = true → e.dirGblockBitmap n = true := by
      intro k h
      rcases eq_or_ne n k with rfl | hnk
      · cases (Function.update_self _ _ _).symm.trans h
      · rwa [Function.update_of_ne hnk, Function.update_of_ne hne] at h
    cases hc with
    | readMissDirtyAckdata => rwa [← Function.update_of_ne hne true e.dirGblockBitmap]
    | writeMissDirtyAck => exact hset _ hn
    | sharedAckLast => exact hset _ hn
    | sharedAckMore => exact hset _ hn
    | notonlyAckLast => exact hset _ hn
    | notonlyAckMore => exact hset _ hn
    | ignored => exact hn
    | mCheckFail hq => rw [hq] at hm; cases hm
    | bitmapCheckFail hq => rw [hq] at hm; cases hm
    | readMiss hq => rw [hq] at hm; cases hm
    | readMissDirty hq => rw [hq] at hm; cases hm
    | writeMiss hq => rw [hq] at hm; cases hm
    | writeMissShared hq => rw [hq] at hm; cases hm
    | writeMissDirty hq => rw [hq] at hm; cases hm
    | writeSharedNotonly hq => rw [hq] at hm; cases hm
    | writeSharedOnly hq => rw [hq] at hm; cases hm
    | evictShared hq => rw [hq] at hm; cases hm
    | evictDirty hq => rw [hq] at hm; cases hm

/-- A miss that opens a transaction has written its address. -/
theorem DirCase.opens_addr (hc : DirCase r m e t) (hm : m.mtype.isRequest)
    (hs : e.state.isTransient = false) (ht : t.dirData.state.isTransient)
    (hk : TxnKind.of m.mtype e.state ≠ .writeShared) :
    t.dirData.agentClineAddr m.reqClineNodeID = m.reqClineAddr := by
  have hstay : e.state.isTransient = true → False := by
    intro h
    rw [hs] at h
    cases h
  cases hc with
  | readMissDirty => exact Function.update_self _ _ _
  | writeMissShared => exact Function.update_self _ _ _
  | writeMissDirty => exact Function.update_self _ _ _
  | writeSharedNotonly hq => exact absurd (by rw [hq]; rfl) hk
  | mCheckFail => exact (hstay ht).elim
  | bitmapCheckFail => exact (hstay ht).elim
  | ignored => exact (hstay ht).elim
  | evictShared =>
      have hno : ∀ c : Prop, [Decidable c] →
          (if c then RawState.sUnshared else .sShared).isTransient = false := by
        intro c _
        split <;> rfl
      cases (hno _).symm.trans ht
  | sharedAckMore hq => rw [hq] at hm; cases hm
  | notonlyAckMore hq => rw [hq] at hm; cases hm
  | _ => cases ht

end Tick

/-- An order that a transaction sends goes to the node that the scan found, with the address that
the entry has for it. -/
theorem transaction_order {r : DirRegs} {m o : CtrlMsg} {e : DirDataE}
    (ho : (transaction r m e).out = some o) (hord : o.mtype.isOrder) :
    e.state = .sDirty ∧ o.block = m.block ∧ o.dstNodeId = o.agentClineNodeID ∧
      o.agentClineNodeID = (lastSet e.dirGblockBitmap).getD 0 ∧
      o.agentClineAddr = (transaction r m e).dirData.agentClineAddr o.agentClineNodeID := by
  have hc := DirCase.of_transaction r m e
  generalize ht : transaction r m e = t at ho hc
  cases hc with
  | readMissDirty hm hs hb a =>
      simp only [transaction, hm, onReadMiss, hs, latch_reqClineNodeID, hb, if_true] at ht
      rw [← ht] at ho ⊢
      cases ho
      exact ⟨hs, rfl, rfl, rfl, rfl⟩
  | writeMissDirty hm hs hb a =>
      simp only [transaction, hm, onWriteMiss, hs, latch_reqClineNodeID, hb, if_true] at ht
      rw [← ht] at ho ⊢
      cases ho
      exact ⟨hs, rfl, rfl, rfl, rfl⟩
  | _ => cases ho <;> cases hord

/-- An order of the multicast carries the address that the saved entry has for its node. -/
theorem copyStep_order {r : DirRegs} {o : CtrlMsg} (ho : (copyStep r).2 = some o) :
    o.agentClineAddr = r.regDirData.agentClineAddr o.agentClineNodeID := by
  simp only [copyStep] at ho
  split at ho
  · split at ho
    · cases ho
    · cases ho
      rfl
  · split at ho
    · cases ho
    · split at ho
      · cases ho
      · cases ho
        rfl
  · cases ho

/-! ## The record of granted misses -/

/-- The header of the miss that the directory grants when it takes up `p`: the message itself if
it is granted at once, else the request that opened the pending transaction. -/
def Fabric.grants (s : Fabric) (p : Packet) : Option Header :=
  if (s.tick p).out.any (·.mtype.isMissAck) then some p.msg.header
  else if p.msg.mtype.acksMiss ∧ awaitedIn p.msg.mtype = some (s.dir p.msg.block).state then
    (s.txnOf p.msg.block).map (·.header)
  else none

/-- The buffer that the last granted miss of a node for a block has named. -/
abbrev Granted := Block → NodeId → Option Addr

/-- Record a granted miss. -/
def Granted.note (g : Granted) (o : Option Header) : Granted := fun b n =>
  match o with
  | some hd => if b = hd.block ∧ n = hd.reqClineNodeID then some hd.reqClineAddr else g b n
  | none => g b n

/-- The fabric and the record. -/
structure Housing where
  fab : Fabric
  granted : Granted

/-- A step of the fabric. -/
def Housing.step (qNum : ℕ) (a : FabricAction) (s : Housing) : Option Housing :=
  (Fabric.step qNum a s.fab).map fun fab =>
    ⟨fab, s.granted.note (match a with
      | .dirTick i => (s.fab.netAt i).bind s.fab.grants
      | _ => none)⟩

/-- The fabric with the record of what it grants. -/
def housing (qNum : ℕ) : TransitionSystem Housing FabricAction :=
  ⟨fun s => s.fab.Init ∧ ∀ b n, s.granted b n = none, Housing.step qNum⟩

theorem Housing.reachable_fab {qNum : ℕ} {s : Housing} (h : (housing qNum).Reachable s) :
    (fabric qNum).Reachable s.fab := by
  refine TransitionSystem.ReachableWhen.map Housing.fab ?_ ?_ h
  · intro s h0
    exact .init h0.1
  · intro s a s' _ hr hs
    obtain ⟨fab, hfab, rfl⟩ := Option.map_eq_some_iff.mp hs
    exact .step hr trivial hfab

/-! ## Where a bit is known to be set -/

theorem Txn.Tracks.missing_subset {T : Txn} {e : DirDataE} (h : T.Tracks e) :
    T.missing ⊆ e.bits := by
  have hshape := h.shape
  have htargets : T.missing ⊆ T.targets := Finset.filter_subset _ _
  cases hk : T.kind <;> simp only [hk] at hshape
  · exact hshape.2.2.1 ▸ htargets
  · exact hshape.2.2.1 ▸ htargets
  · exact hshape.1 ▸ Finset.subset_union_left
  · exact hshape.1 ▸ Finset.subset_insert _ _

namespace FabricInv

open Fabric

variable {s : Fabric}

theorem missing_subset (h : FabricInv s) (b : Block) : s.missing b ⊆ (s.dir b).bits := by
  cases ht : (s.dir b).state.isTransient with
  | false =>
      rw [Fabric.missing, ht]
      exact Finset.empty_subset _
  | true =>
      obtain ⟨T, hT, htracks⟩ := (h.consistent b).tracks ht
      rw [Fabric.missing, if_pos ht, hT]
      exact htracks.missing_subset

/-- The node to which an order travels has its bit set. -/
theorem order_bit (h : FabricInv s) {f : Flight} (hf : f ∈ s.flights) (hnet : f.loc = .net)
    (ho : f.packet.msg.mtype.isOrder) :
    (s.dir f.packet.msg.block).dirGblockBitmap f.packet.msg.agentClineNodeID = true :=
  DirDataE.mem_bits.mp <| h.missing_subset _ <| h.mem_missing hf hnet (by simp [CtrlMsg.isDebt, ho])

/-- A node to which the multicast has yet to send has its bit set. -/
theorem saved_bit (h : FabricInv s) {d n : NodeId} (hf : (s.dirRegs d).regCopyFlag)
    (hb : (s.dirRegs d).regDirData.dirGblockBitmap n = true)
    (hn : n ≠ (s.dirRegs d).regCtrlMsg.reqClineNodeID) :
    (s.dir (s.dirRegs d).regCtrlMsg.block).dirGblockBitmap n = true := by
  refine DirDataE.mem_bits.mp (h.missing_subset _ ?_)
  have hpend := h.pending (s.dirRegs d).regCtrlMsg.block n
  have hhome : (s.dirRegs d).regCtrlMsg.block.nodeID = d := (h.dirRouted d hf).1
  have howes : (s.dirRegs d).owes (s.dirRegs d).regCtrlMsg.block n = 1 :=
    if_pos ⟨hf, rfl, hb, hn⟩
  by_contra hmiss
  rw [if_neg hmiss, Fabric.pending, hhome] at hpend
  omega

end FabricInv

/-! ## The entry agrees with the record -/

theorem not_order_of_ack {t : RawMessageType} (h : t.isAck) : t.isOrder = false := by
  cases t <;> first | rfl | cases h

theorem not_order_of_answer {t : RawMessageType} (h : t.isAnswer) : t.isOrder = false := by
  cases t <;> first | rfl | cases h

/-- The multicast works on addresses that the entry of its block still has. -/
def DirRegs.Agrees (r : DirRegs) (dir : Block → DirDataE) : Prop :=
  r.regCopyFlag = true → ∀ n, r.regDirData.dirGblockBitmap n = true →
    n ≠ r.regCtrlMsg.reqClineNodeID →
    r.regDirData.agentClineAddr n = (dir r.regCtrlMsg.block).agentClineAddr n

/-- The invariant: a set bit has the address of the last grant; in a transaction that a miss
opened the requester's address is in place already; and an order, sent or still to be sent by the
multicast, has the address that the entry has. -/
structure Housed (s : Housing) : Prop where
  granted : ∀ b n, (s.fab.dir b).dirGblockBitmap n = true →
    s.granted b n = some ((s.fab.dir b).agentClineAddr n)
  opened : ∀ b T, s.fab.txnOf b = some T → (s.fab.dir b).state.isTransient →
    T.kind ≠ .writeShared → (s.fab.dir b).agentClineAddr T.req = T.header.reqClineAddr
  sent : ∀ f ∈ s.fab.flights, f.loc = .net → f.packet.msg.mtype.isOrder →
    f.packet.msg.agentClineAddr =
      (s.fab.dir f.packet.msg.block).agentClineAddr f.packet.msg.agentClineNodeID
  saved : ∀ d, (s.fab.dirRegs d).Agrees s.fab.dir

namespace Housed

open Fabric

variable {s : Housing} {g : Granted}

/-- Everything but the messages in transit and the cache controllers is as it was, and no order
has come in. -/
theorem moved (h : Housed s) {fab : Fabric} (hdir : fab.dir = s.fab.dir)
    (hregs : fab.dirRegs = s.fab.dirRegs) (htxn : ∀ b, fab.txnOf b = s.fab.txnOf b)
    (hsent : ∀ f ∈ fab.flights, f.loc = .net → f.packet.msg.mtype.isOrder → f ∈ s.fab.flights) :
    Housed ⟨fab, s.granted.note none⟩ where
  granted := fun b n hb => by rw [hdir] at hb ⊢; exact h.granted b n hb
  opened := fun b T hT ht hk => by
    rw [htxn] at hT
    rw [hdir] at ht ⊢
    exact h.opened b T hT ht hk
  sent := fun f hf hnet ho => by rw [hdir]; exact h.sent f (hsent f hf hnet ho) hnet ho
  saved := fun d => by
    rw [hregs, hdir]
    exact h.saved d

theorem dirCopy (h : Housed s) (hi : FabricInv s.fab) {d : NodeId}
    (hf : (s.fab.dirRegs d).regCopyFlag) :
    Housed ⟨s.fab.afterDirCopy d, s.granted.note none⟩ := by
  obtain ⟨T, hT, hk, hm⟩ := hi.dirDebt d hf
  have hcopy := FabricInv.copyStepped (hi.dirRouted d) hf hk hm
  have haddr : ∀ o, (copyStep (s.fab.dirRegs d)).2 = some o → _ := fun o => copyStep_order
  -- a cell is cleared, and nothing else of the registers changes but the flag
  have hleft : ∀ n k, (Function.update (s.fab.dirRegs d).regDirData.dirGblockBitmap k false) n
      = true → (s.fab.dirRegs d).regDirData.dirGblockBitmap n = true := by
    intro n k hn
    rcases eq_or_ne n k with rfl | hne
    · cases (Function.update_self _ _ _).symm.trans hn
    · rwa [Function.update_of_ne hne] at hn
  refine { granted := h.granted, opened := h.opened, sent := fun f hfl hnet ho => ?_, saved := ?_ }
  · rcases List.mem_append.mp hfl with hfl | hfl
    · exact h.sent f hfl hnet ho
    · obtain ⟨m, hm', rfl⟩ := mem_send.mp hfl
      rw [haddr m hm']
      generalize copyStep (s.fab.dirRegs d) = t at hcopy hm'
      cases hcopy with
      | stop => cases hm'
      | skip => cases hm'
      | order n a hn hne =>
          cases hm'
          exact h.saved d hf n hn hne
  · intro k
    rcases eq_or_ne k d with rfl | hkd
    · show (Function.update s.fab.dirRegs k _ k).Agrees s.fab.dir
      rw [Function.update_self]
      generalize copyStep (s.fab.dirRegs k) = t at hcopy
      cases hcopy with
      | stop => intro hflag; cases hflag
      | skip => exact fun _ n hn hne => h.saved k hf n (hleft n _ hn) hne
      | order => exact fun _ n hn hne => h.saved k hf n (hleft n _ hn) hne
    · show (Function.update s.fab.dirRegs d _ k).Agrees s.fab.dir
      rw [Function.update_of_ne hkd]
      exact h.saved k

section DirTick

variable {i : ℕ} {p : Packet}

/-- The tick keeps the address of every node whose bit is set, of any block. -/
theorem keeps (s : Fabric) (p : Packet) {b : Block} {n : NodeId}
    (hn : (s.dir b).dirGblockBitmap n = true) :
    (Function.update s.dir p.msg.block (s.tick p).dirData b).agentClineAddr n =
      (s.dir b).agentClineAddr n := by
  rcases eq_or_ne b p.msg.block with rfl | hb
  · rw [Function.update_self]
    exact (s.tick_case p).keeps_addr hn
  · rw [Function.update_of_ne hb]

/-- After a tick the orders still have the addresses of the entries. -/
theorem tick_sent (h : Housed s) (hi : FabricInv s.fab) {f : Flight}
    (hf : f ∈ s.fab.flights.eraseIdx i ++ send p.ticket (s.fab.tick p).out) (hnet : f.loc = .net)
    (ho : f.packet.msg.mtype.isOrder) :
    f.packet.msg.agentClineAddr =
      (Function.update s.fab.dir p.msg.block (s.fab.tick p).dirData
        f.packet.msg.block).agentClineAddr f.packet.msg.agentClineNodeID := by
  rcases List.mem_append.mp hf with hf | hf
  · have hmem := List.mem_of_mem_eraseIdx hf
    rw [keeps s.fab p (hi.order_bit hmem hnet ho)]
    exact h.sent f hmem hnet ho
  · obtain ⟨o, hout, rfl⟩ := mem_send.mp hf
    obtain ⟨-, hblock, -, -, haddr⟩ := transaction_order hout ho
    show o.agentClineAddr = (Function.update s.fab.dir p.msg.block (s.fab.tick p).dirData
      o.block).agentClineAddr o.agentClineNodeID
    rw [hblock, Function.update_self]
    exact haddr

/-- After a tick the multicasts that were going on still have the addresses of the entries. -/
theorem tick_saved (h : Housed s) (hi : FabricInv s.fab) (d : NodeId) :
    (s.fab.dirRegs d).Agrees (Function.update s.fab.dir p.msg.block (s.fab.tick p).dirData) := by
  intro hf n hn hne
  rw [keeps s.fab p (hi.saved_bit hf hn hne)]
  exact h.saved d hf n hn hne

/-- A multicast that the tick has begun works on the entry that the tick has found. -/
theorem tick_begun (s : Fabric) (p : Packet) (d : NodeId) (hd : (s.dirRegs d).regCopyFlag = false)
    (hregs : d = p.msg.dirGblockNodeID) :
    (s.tick p).regs.Agrees (Function.update s.dir p.msg.block (s.tick p).dirData) := by
  subst hregs
  rcases (s.tick_case p).regs_cases with hr | hr
  · rw [hr]
    intro hf
    rw [hd] at hf
    cases hf
  · rw [hr]
    intro _ n hn _
    exact (keeps s p hn).symm

/-- What a request sets agrees with what it grants. -/
theorem request_granted (h : Housed s) (hm : p.msg.mtype.isRequest) {b : Block} {n : NodeId}
    (hn : (Function.update s.fab.dir p.msg.block (s.fab.tick p).dirData b).dirGblockBitmap n
      = true) :
    s.granted.note (s.fab.grants p) b n =
      some ((Function.update s.fab.dir p.msg.block (s.fab.tick p).dirData b).agentClineAddr n) := by
  have hc := s.fab.tick_case p
  have hack : p.msg.mtype.acksMiss = false := by
    cases ht : p.msg.mtype <;> rw [ht] at hm <;> first | rfl | cases hm
  have hnote : s.granted.note (s.fab.grants p) b n =
      if (s.fab.tick p).out.any (·.mtype.isMissAck) ∧ b = p.msg.block ∧ n = p.msg.reqClineNodeID
      then some p.msg.reqClineAddr else s.granted b n := by
    rw [Fabric.grants]
    cases ho : (s.fab.tick p).out.any (·.mtype.isMissAck) with
    | true => simp only [if_true, true_and]; rfl
    | false => simp [hack, Granted.note]
  rw [hnote]
  rcases eq_or_ne b p.msg.block with rfl | hb
  · rw [Function.update_self] at hn ⊢
    rcases hc.request_sets hm hn with hbit | ⟨rfl, ho⟩
    · rw [hc.keeps_addr hbit, if_neg]
      · exact h.granted _ n hbit
      · rintro ⟨ho, -, rfl⟩
        rw [(hc.granted ho).1] at hbit
        cases hbit
    · rw [if_pos ⟨ho, rfl, rfl⟩, (hc.granted ho).2]
  · rw [Function.update_of_ne hb] at hn ⊢
    rw [if_neg (fun hx => hb hx.2.1)]
    exact h.granted b n hn

/-- An acknowledgement of a miss grants it. -/
theorem grants_ack {s : Fabric} {T : Txn} (hT : s.Belongs p.ticket p.msg T)
    (hm : p.msg.mtype = T.kind.ack) (hack : T.Acked p.msg (s.dir p.msg.block) (s.tick p)) :
    s.grants p = if T.kind = .writeShared then none else some T.header := by
  have hout : (s.tick p).out.any (·.mtype.isMissAck) = false := by
    cases hack with
    | last _ _ _ _ hout =>
        rw [hout]
        cases T.kind <;> rfl
    | more _ _ _ hout => rw [hout]; rfl
  have hawait : awaitedIn p.msg.mtype = some (s.dir p.msg.block).state := by
    rw [hm, hT.2.1]
    cases T.kind <;> rfl
  have hmiss : p.msg.mtype.acksMiss = decide (T.kind ≠ .writeShared) := by
    rw [hm]
    cases T.kind <;> rfl
  rw [Fabric.grants, hout, hT.1, hawait, hmiss]
  simp

/-- What an acknowledgement sets agrees with what it grants. -/
theorem ack_granted (h : Housed s) {T : Txn} (hT : s.fab.Belongs p.ticket p.msg T)
    (hm : p.msg.mtype = T.kind.ack) (htracks : T.Tracks (s.fab.dir p.msg.block))
    (hack : T.Acked p.msg (s.fab.dir p.msg.block) (s.fab.tick p)) {b : Block} {n : NodeId}
    (hn : (Function.update s.fab.dir p.msg.block (s.fab.tick p).dirData b).dirGblockBitmap n
      = true) :
    s.granted.note (s.fab.grants p) b n =
      some ((Function.update s.fab.dir p.msg.block (s.fab.tick p).dirData b).agentClineAddr n) := by
  have hc := s.fab.tick_case p
  have hreq : p.msg.mtype.isRequest = false := by rw [hm]; cases T.kind <;> rfl
  have hheader : T.header = p.msg.header := hT.2.2.2
  have hnote : s.granted.note (s.fab.grants p) b n =
      if T.kind ≠ .writeShared ∧ b = p.msg.block ∧ n = T.req
      then some T.header.reqClineAddr else s.granted b n := by
    rw [grants_ack hT hm hack]
    by_cases hk : T.kind = .writeShared
    · simp [hk, Granted.note]
    · have hb : T.header.block = p.msg.block := congrArg Header.block hheader
      simp only [hk, Granted.note, hb, if_false, ne_eq, not_false_eq_true, true_and]
  rw [hnote]
  rcases eq_or_ne b p.msg.block with rfl | hb
  · rw [Function.update_self] at hn ⊢
    rw [hc.ack_keeps_addr hreq]
    by_cases hgrant : T.kind ≠ .writeShared ∧ n = T.req
    · -- the address of the miss has been in place since it opened the transaction
      rw [if_pos ⟨hgrant.1, rfl, hgrant.2⟩, hgrant.2]
      refine congrArg some (h.opened _ T hT.1 ?_ hgrant.1).symm
      rw [hT.2.1]
      exact TxnKind.state_isTransient _
    · rw [if_neg (fun hx => hgrant ⟨hx.1, hx.2.2⟩)]
      refine h.granted _ n ?_
      rcases hc.ack_sets hreq hn with hbit | hbit
      · exact hbit
      · -- an upgrade sets the bit of its requester, which had it
        have hnT : n = T.req := by rw [hbit, Txn.req, hheader]; rfl
        have hk : T.kind = .writeShared := by
          by_contra hk
          exact hgrant ⟨hk, hnT⟩
        have hshape := htracks.shape
        simp only [hk] at hshape
        refine DirDataE.mem_bits.mp ?_
        rw [hshape.1, hnT]
        exact Finset.mem_insert_self _ _
  · rw [Function.update_of_ne hb] at hn ⊢
    rw [if_neg (fun hx => hb hx.2.1)]
    exact h.granted b n hn

/-- A tick of the directory keeps the invariant. -/
theorem dirTick (h : Housed s) (hi : FabricInv s.fab) (hp : s.fab.flights[i]? = some ⟨.net, p⟩)
    (hd : p.msg.mtype.toDir) (hr : (s.fab.dirRegs p.msg.dstNodeId).regCopyFlag = false) :
    Housed ⟨s.fab.afterDirTick i p, s.granted.note (s.fab.grants p)⟩ := by
  have hdst := (routed_toDir (hi.routed _ (mem_of_getElem? hp)) hd).1
  have hticked := hi.dirTicked hp hd hr
  have hc := s.fab.tick_case p
  rw [hdst] at hr
  generalize s.fab.afterDirTick i p = s' at hticked
  cases hticked with
  | answered hm hstay =>
      refine ⟨fun b n => h.request_granted hm, fun b T hT ht hk => ?_,
        fun f => h.tick_sent hi, h.tick_saved hi⟩
      replace ht : (Function.update s.fab.dir p.msg.block (s.fab.tick p).dirData b).state.isTransient
        := ht
      show (Function.update s.fab.dir p.msg.block (s.fab.tick p).dirData b).agentClineAddr T.req = _
      rcases eq_or_ne b p.msg.block with rfl | hb
      · rw [Function.update_self] at ht ⊢
        rw [hstay] at ht
        rw [hc.bounces hm ht]
        exact h.opened _ T hT ht hk
      · rw [Function.update_of_ne hb] at ht ⊢
        exact h.opened _ T hT ht hk
  | opened hm hstable htrans =>
      have hfresh : s.fab.txns p.ticket.id = none := hi.fresh _ (mem_of_getElem? hp) rfl hm
      refine ⟨fun b n => h.request_granted hm, fun b T hT ht hk => ?_,
        fun f => h.tick_sent hi, fun d => ?_⟩
      · replace hT : (FabricInv.opening s.fab i p).txnOf b = some T := hT
        replace ht : (Function.update s.fab.dir p.msg.block
          (s.fab.tick p).dirData b).state.isTransient := ht
        show (Function.update s.fab.dir p.msg.block (s.fab.tick p).dirData b).agentClineAddr T.req
          = _
        rcases eq_or_ne b p.msg.block with rfl | hb
        · rw [FabricInv.opening_txnOf_self] at hT
          cases hT
          rw [Function.update_self]
          exact hc.opens_addr hm hstable htrans hk
        · rw [FabricInv.opening_txnOf_ne hi hfresh hb] at hT
          rw [Function.update_of_ne hb] at ht ⊢
          exact h.opened _ T hT ht hk
      · show (Function.update s.fab.dirRegs p.msg.dirGblockNodeID (s.fab.tick p).regs d).Agrees
          (Function.update s.fab.dir p.msg.block (s.fab.tick p).dirData)
        rcases eq_or_ne d p.msg.dirGblockNodeID with rfl | hdn
        · rw [Function.update_self]
          exact tick_begun s.fab p _ hr rfl
        · rw [Function.update_of_ne hdn]
          exact h.tick_saved hi d
  | acked T hT hm htracks ha hack =>
      have hreq : p.msg.mtype.isRequest = false := by rw [hm]; cases T.kind <;> rfl
      refine ⟨fun b n => h.ack_granted hT hm htracks hack, fun b T' hT' ht hk => ?_,
        fun f => h.tick_sent hi, h.tick_saved hi⟩
      replace hT' : (FabricInv.acking s.fab i p T).txnOf b = some T' := hT'
      replace ht : (Function.update s.fab.dir p.msg.block
        (s.fab.tick p).dirData b).state.isTransient := ht
      show (Function.update s.fab.dir p.msg.block (s.fab.tick p).dirData b).agentClineAddr T'.req
        = _
      rcases eq_or_ne b p.msg.block with rfl | hb
      · rw [FabricInv.acking_txnOf_self hi hT] at hT'
        cases hT'
        rw [Function.update_self, hc.ack_keeps_addr hreq]
        refine h.opened _ T hT.1 ?_ hk
        rw [hT.2.1]
        exact TxnKind.state_isTransient _
      · rw [FabricInv.acking_txnOf_ne hi hT hb] at hT'
        rw [Function.update_of_ne hb] at ht ⊢
        exact h.opened _ T' hT' ht hk

end DirTick

/-- A cache controller sends no order over the network. -/
theorem ccTick (h : Housed s) {fab : Fabric} {qNum i : ℕ} {p : Packet}
    (hc : FabricInv.CcTicked qNum s.fab i p fab) : Housed ⟨fab, s.granted.note none⟩ := by
  have hmem : ∀ (f : Flight) (l : List Flight),
      f ∈ s.fab.flights.eraseIdx i ++ l → f ∉ l → f ∈ s.fab.flights := fun f l hf hl =>
    List.mem_of_mem_eraseIdx ((List.mem_append.mp hf).resolve_right hl)
  cases hc with
  | acked T hT hm hk =>
      refine h.moved rfl rfl (fun _ => rfl) fun f hf hnet ho => hmem f _ hf ?_
      rintro (_ | ⟨_, _ | ⟨_, ⟨⟩⟩⟩)
      · cases hnet
      · cases (not_order_of_ack (FabricInv.ack_isAck T.kind)).symm.trans ho
  | shipped T hT hm hk =>
      refine h.moved rfl rfl (fun _ => rfl) fun f hf hnet ho => hmem f _ hf ?_
      rintro (_ | ⟨_, _ | ⟨_, ⟨⟩⟩⟩)
      · cases hnet
      · cases (not_order_of_answer (FabricInv.grant_isAnswer T.kind)).symm.trans ho
  | answered hm =>
      refine h.moved rfl rfl (fun _ => rfl) fun f hf hnet ho => hmem f _ hf ?_
      rintro (_ | ⟨_, ⟨⟩⟩)
      cases hnet

theorem ccCopy (h : Housed s) (hi : FabricInv s.fab) {n : NodeId}
    (hf : (s.fab.ccRegs n).regCopyFlag) : Housed ⟨s.fab.afterCcCopy n, s.granted.note none⟩ := by
  obtain ⟨T, hT, hk⟩ := hi.ccDebt n hf
  refine h.moved rfl rfl (fun _ => rfl) fun f hfl hnet ho => ?_
  rcases List.mem_append.mp hfl with hfl | hfl
  · exact hfl
  · rw [FabricInv.cacheCtrlCopy_eq (hi.ccRouted n) hf hk] at hfl
    rw [List.mem_singleton.mp hfl] at ho
    cases (not_order_of_ack (FabricInv.ack_isAck T.kind)).symm.trans ho

/-- Every step keeps the invariant. -/
theorem step (h : Housed s) (hi : FabricInv s.fab) {qNum : ℕ} {a : FabricAction} {s' : Housing}
    (hs : Housing.step qNum a s = some s') : Housed s' := by
  obtain ⟨fab, hfab, rfl⟩ := Option.map_eq_some_iff.mp hs
  cases Stepped.of_step hfab with
  | inject m hm =>
      refine h.moved rfl rfl (fun _ => rfl) fun f hf _ ho => ?_
      rcases List.mem_append.mp hf with hf | hf
      · exact hf
      · rw [List.mem_singleton.mp hf] at ho
        cases (not_request_of_order ho).symm.trans hm
  | dirTick i p hp hd hr =>
      have hnet : s.fab.netAt i = some p := by simp only [netAt, hp]
      simp only [hnet, Option.bind_some]
      exact h.dirTick hi hp hd hr
  | dirCopy d hr => exact h.dirCopy hi hr
  | ccTick i p hp hd hr => exact h.ccTick (hi.ccTicked hp hd hr)
  | ccCopy n hr => exact h.ccCopy hi hr
  | pop loc i p hl hp hq =>
      exact h.moved rfl rfl (fun _ => rfl) fun f hf _ _ => List.mem_of_mem_eraseIdx hf

theorem init (h : s.fab.Init ∧ ∀ b n, s.granted b n = none) : Housed s where
  granted := fun b n hb => by rw [(h.1.dir b).2.2 n] at hb; cases hb
  opened := fun b T hT => by rw [Fabric.txnOf, h.1.current b] at hT; cases hT
  sent := fun f hf => by rw [h.1.flights] at hf; cases hf
  saved := fun d hf => by rw [h.1.dirRegs d] at hf; cases hf

end Housed

/-- The invariant holds in every reachable state. -/
theorem housed_of_reachable {qNum : ℕ} {s : Housing} (h : (housing qNum).Reachable s) :
    Housed s :=
  TransitionSystem.Reachable.invariant (fun _ h0 => .init h0)
    (fun _ _ _ hr hs hstep => hs.step (fabric_inv (Housing.reachable_fab hr)) hstep) h

/-- No step changes the address of a node whose bit is set. -/
theorem keeps_addr_of_step {qNum : ℕ} {a : FabricAction} {s s' : Housing}
    (hs : Housing.step qNum a s = some s') (b : Block) (n : NodeId)
    (hn : (s.fab.dir b).dirGblockBitmap n = true) :
    (s'.fab.dir b).agentClineAddr n = (s.fab.dir b).agentClineAddr n := by
  obtain ⟨fab, hfab, rfl⟩ := Option.map_eq_some_iff.mp hs
  cases Fabric.Stepped.of_step hfab with
  | dirTick i p hp hd hr =>
      show (Function.update s.fab.dir _ _ b).agentClineAddr n = _
      rcases eq_or_ne b ⟨p.msg.dstNodeId, p.msg.dirGblockIndex⟩ with rfl | hb
      · rw [Function.update_self]
        exact (DirCase.of_transaction _ _ _).keeps_addr hn
      · rw [Function.update_of_ne hb]
  | _ => rfl

/-- The directory knows where each replica lives.  Over every run from initialised entries, a node
whose bit is set has the address that its last granted miss has named; every order on the network
goes to the node it is for, whose bit is set, with exactly that address; and no step whatever
changes the address of a node whose bit is set. -/
theorem directory_knows_replicas {qNum : ℕ} {s : Housing} (h : (housing qNum).Reachable s) :
    (∀ b n, (s.fab.dir b).dirGblockBitmap n = true →
      s.granted b n = some ((s.fab.dir b).agentClineAddr n)) ∧
    (∀ f ∈ s.fab.flights, f.loc = .net → f.packet.msg.mtype.isOrder →
      f.packet.msg.dstNodeId = f.packet.msg.agentClineNodeID ∧
      (s.fab.dir f.packet.msg.block).dirGblockBitmap f.packet.msg.agentClineNodeID = true ∧
      s.granted f.packet.msg.block f.packet.msg.agentClineNodeID =
        some f.packet.msg.agentClineAddr) ∧
    ∀ a s', (housing qNum).step a s = some s' → ∀ b n,
      (s.fab.dir b).dirGblockBitmap n = true →
      (s'.fab.dir b).agentClineAddr n = (s.fab.dir b).agentClineAddr n := by
  have hi := fabric_inv (Housing.reachable_fab h)
  have hh := housed_of_reachable h
  refine ⟨hh.granted, fun f hf hnet ho => ?_, fun a s' hs => keeps_addr_of_step hs⟩
  have hbit := hi.order_bit hf hnet ho
  refine ⟨?_, hbit, ?_⟩
  · obtain ⟨loc, p⟩ := f
    subst hnet
    rcases hi.routed _ hf with ⟨hm, -⟩ | ⟨-, hdst⟩ | ⟨hm, -⟩ | ⟨hm, -⟩
    · cases (not_request_of_order ho).symm.trans hm
    · exact hdst
    · cases (not_order_of_ack hm).symm.trans ho
    · cases (not_order_of_answer hm).symm.trans ho
  · rw [hh.granted _ _ hbit, hh.sent f hf hnet ho]

/-- Nodes 1 and 2 read a block into the buffers at 4096 and 8192, node 3 write-misses it, and the
order to node 2 is on its way. -/
def multicastRun : List FabricAction :=
  [.inject (request .rReadMiss 1), .inject { request .rReadMiss 2 with reqClineAddr := 8192 },
    .dirTick 0, .dirTick 0, .inject (request .rWriteMiss 3), .dirTick 2, .dirCopy 0]

/-- The state that run ends in. -/
def multicastState : Housing :=
  ((housing 8).run multicastRun ⟨Fabric.start, fun _ _ => none⟩).get (by decide)

theorem multicastState_reachable : (housing 8).Reachable multicastState :=
  .of_run (.init ⟨Fabric.start_init, fun _ _ => rfl⟩) (Option.some_get _).symm

theorem directory_knows_replicas_multicast :
    (multicastState.fab.dir ⟨0, 7⟩).dirGblockBitmap 2 = true ∧
      multicastState.granted ⟨0, 7⟩ 2 =
        some ((multicastState.fab.dir ⟨0, 7⟩).agentClineAddr 2) ∧
      multicastState.granted ⟨0, 7⟩ 2 = some 8192 ∧
      multicastState.fab.flights.any (fun f => f.packet.msg.mtype.isOrder &&
        f.packet.msg.dstNodeId = 2 && f.packet.msg.agentClineAddr = 8192) := by
  have h := directory_knows_replicas multicastState_reachable
  exact ⟨by decide, h.1 ⟨0, 7⟩ 2 (by decide), by decide, by decide⟩

end Ting
