/-
# `Ting.Hls.FabricInv` — acknowledgements and the transactions that elicit them

An order to an agent and the acknowledgement it elicits are two shapes of one debt: the
debt is contracted when a transaction opens, moves from the multicast registers to the
network, from the order to the acknowledgement, and is settled when the directory consumes
that.  `Fabric.pending s b n` counts the debts of node `n` for block `b` in all places, and
`FabricInv` says that the count is one for every node the pending transaction still misses
and zero otherwise, and that every debt carries the ticket and header of that transaction.

The network is unordered here, so the invariant holds under any delivery order.
-/
import Ting.Hls.DirEntry
import Ting.Lib.Total

namespace Ting

open Total

/-! ## Debts -/

/-- An order or an acknowledgement. -/
def CtrlMsg.isDebt (m : CtrlMsg) : Bool :=
  m.mtype.isOrder || m.mtype.isAck

/-- A message that is a debt of node `n` for block `b`. -/
def CtrlMsg.owes (b : Block) (n : NodeId) (m : CtrlMsg) : ℕ :=
  if m.isDebt ∧ m.block = b ∧ m.agentClineNodeID = n then 1 else 0

/-- Debts travel on the network. -/
def Flight.owes (b : Block) (n : NodeId) (f : Flight) : ℕ :=
  if f.loc = .net then f.packet.msg.owes b n else 0

/-- The copy register of a cache controller holds an order for block `b` that it has yet to
acknowledge. -/
def CcRegs.owes (b : Block) (r : CcRegs) : ℕ :=
  if r.regCopyFlag ∧ r.regCtrlMsg.block = b then 1 else 0

/-- The multicast registers have yet to send node `n` the order for block `b`. -/
def DirRegs.owes (b : Block) (n : NodeId) (r : DirRegs) : ℕ :=
  if r.regCopyFlag ∧ r.regCtrlMsg.block = b ∧ r.regDirData.dirGblockBitmap n ∧
    n ≠ r.regCtrlMsg.reqClineNodeID then 1 else 0

namespace Fabric

/-- The number of debts of node `n` for block `b`, wherever they are. -/
def pending (s : Fabric) (b : Block) (n : NodeId) : ℕ :=
  total (Flight.owes b n) s.flights + (s.ccRegs n).owes b + (s.dirRegs b.nodeID).owes b n

/-- The nodes whose acknowledgement block `b` is waiting for. -/
def missing (s : Fabric) (b : Block) : Finset NodeId :=
  if (s.dir b).state.isTransient then (s.txnOf b).elim ∅ Txn.missing else ∅

/-- Ticket and header of a message are those of the transaction pending on its block. -/
def Belongs (s : Fabric) (k : Ticket) (m : CtrlMsg) (T : Txn) : Prop :=
  s.txnOf m.block = some T ∧ (s.dir m.block).state = T.kind.state ∧ T.ticket = k ∧
    T.header = m.header

end Fabric

/-! ## Well-formed places -/

/-- A message in transit is where its type and its addresses say. -/
def Flight.Routed (f : Flight) : Prop :=
  let m := f.packet.msg
  match f.loc with
  | .net =>
      (m.mtype.isRequest ∧ m.dstNodeId = m.dirGblockNodeID ∧ f.packet.ticket.kind = m.mtype) ∨
      (m.mtype.isOrder ∧ m.dstNodeId = m.agentClineNodeID) ∨
      (m.mtype.isAck ∧ m.dstNodeId = m.dirGblockNodeID) ∨
      (m.mtype.isAnswer ∧ m.dstNodeId = m.reqClineNodeID)
  | .app n τ => m.mtype.isAnswer ∧ m.reqClineNodeID = n ∧ m.reqClineAppThreadID = τ
  | .sys n _ => m.mtype.isOrder ∧ m.agentClineNodeID = n

/-- The copy register of the cache controller of node `n` is used for the two orders to a
dirty owner. -/
def CcRegs.Routed (n : NodeId) (r : CcRegs) : Prop :=
  r.regCopyFlag → r.regCtrlMsg.agentClineNodeID = n ∧
    (r.regCtrlMsg.mtype = .dir2AgentReadMissDirty ∨ r.regCtrlMsg.mtype = .dir2AgentWriteMissDirty)

/-- The multicast registers of the directory of node `h` hold a request of one of the two
kinds that need every sharer, and an entry in `S_SHARED` in which one that misses the block
has no cell set. -/
def DirRegs.Routed (h : NodeId) (r : DirRegs) : Prop :=
  r.regCopyFlag → r.regCtrlMsg.dirGblockNodeID = h ∧ r.regDirData.state = .sShared ∧
    (r.regCtrlMsg.mtype = .rWriteMiss ∧
        r.regDirData.dirGblockBitmap r.regCtrlMsg.reqClineNodeID = false ∨
      r.regCtrlMsg.mtype = .rWriteShared)

/-! ## The invariant -/

/-- A request with ticket `i` on the network. -/
def Flight.requests (i : ℕ) (f : Flight) : ℕ :=
  if f.loc = .net ∧ f.packet.msg.mtype.isRequest ∧ f.packet.ticket.id = i then 1 else 0

/-- A transaction that is over was acknowledged once by each of its targets, and emitted its
aggregated grant once if it has one. -/
def Txn.Complete (T : Txn) : Prop :=
  T.acked.Nodup ∧ (∀ n, n ∈ T.acked ↔ n ∈ T.targets) ∧
    T.aggacks = if T.kind.isShared then 1 else 0

/-- The messages in transit, against the records of state `s`. -/
structure FlightsOk (s : Fabric) (fl : List Flight) : Prop where
  routed : ∀ f ∈ fl, f.Routed
  /-- A request still travelling has opened no transaction. -/
  fresh : ∀ f ∈ fl, f.loc = .net → f.packet.msg.mtype.isRequest →
    s.txns f.packet.ticket.id = none
  /-- No two requests in transit have one ticket. -/
  unique : ∀ i, total (Flight.requests i) fl ≤ 1
  issued : ∀ f ∈ fl, f.packet.ticket.id < s.nextId
  /-- A debt carries the ticket of the transaction pending on its block. -/
  debt : ∀ f ∈ fl, f.loc = .net → f.packet.msg.isDebt →
    ∃ T, s.Belongs f.packet.ticket f.packet.msg T ∧
      (f.packet.msg.mtype = T.kind.order ∨ f.packet.msg.mtype = T.kind.ack)

/-- The invariant of the fabric. -/
structure FabricInv (s : Fabric) : Prop extends FlightsOk s s.flights where
  ccRouted : ∀ n, (s.ccRegs n).Routed n
  dirRouted : ∀ h, (s.dirRegs h).Routed h
  recorded : ∀ i T, s.txns i = some T → T.ticket.id = i ∧ i < s.nextId
  current : ∀ b i, s.current b = some i → ∃ T, s.txns i = some T ∧ T.header.block = b
  consistent : ∀ b, (s.dir b).Consistent (s.txnOf b)
  pending : ∀ b n, s.pending b n = if n ∈ s.missing b then 1 else 0
  ccDebt : ∀ n, (s.ccRegs n).regCopyFlag →
    ∃ T, s.Belongs (s.ccTicket n) (s.ccRegs n).regCtrlMsg T ∧
      (s.ccRegs n).regCtrlMsg.mtype = T.kind.order
  dirDebt : ∀ h, (s.dirRegs h).regCopyFlag →
    ∃ T, s.Belongs (s.dirTicket h) (s.dirRegs h).regCtrlMsg T ∧ T.kind.isShared ∧
      (s.dirRegs h).regCtrlMsg.mtype =
        if T.kind = .writeMissShared then .rWriteMiss else .rWriteShared
  settled : ∀ i T, s.txns i = some T →
    (s.current T.header.block = some i ∧ (s.dir T.header.block).state.isTransient) ∨ T.Complete

/-! ## Steps, inverted -/

namespace Fabric

/-- What a step of the fabric does, one constructor for each action. -/
inductive Stepped (qNum : ℕ) (s : Fabric) : FabricAction → Fabric → Prop
  | inject (m : CtrlMsg) (hm : m.mtype.isRequest) : Stepped qNum s (.inject m) (s.afterInject m)
  | dirTick (i : ℕ) (p : Packet) (hp : s.flights[i]? = some ⟨.net, p⟩) (hd : p.msg.mtype.toDir)
      (hr : (s.dirRegs p.msg.dstNodeId).regCopyFlag = false) :
      Stepped qNum s (.dirTick i) (s.afterDirTick i p)
  | dirCopy (h : NodeId) (hr : (s.dirRegs h).regCopyFlag) :
      Stepped qNum s (.dirCopy h) (s.afterDirCopy h)
  | ccTick (i : ℕ) (p : Packet) (hp : s.flights[i]? = some ⟨.net, p⟩)
      (hd : p.msg.mtype.toDir = false) (hr : (s.ccRegs p.msg.dstNodeId).regCopyFlag = false) :
      Stepped qNum s (.ccTick i) (s.afterCcTick qNum i p)
  | ccCopy (n : NodeId) (hr : (s.ccRegs n).regCopyFlag) : Stepped qNum s (.ccCopy n) (s.afterCcCopy n)
  | pop (loc : Loc) (i : ℕ) (p : Packet) (hl : loc ≠ .net) (hp : s.flights[i]? = some ⟨loc, p⟩)
      (hi : s.front loc = some i) : Stepped qNum s (.pop loc) (s.afterPop i)

theorem netAt_eq_some {s : Fabric} {i : ℕ} {p : Packet} (h : s.netAt i = some p) :
    s.flights[i]? = some ⟨.net, p⟩ := by
  unfold netAt at h
  split at h
  next q hq => rw [hq, Option.some.inj h]
  next => cases h

theorem front_eq_some {s : Fabric} {loc : Loc} {i : ℕ} (h : s.front loc = some i) :
    ∃ p, s.flights[i]? = some ⟨loc, p⟩ := by
  obtain ⟨hi, hloc, -⟩ := List.findIdx?_eq_some_iff_getElem.mp h
  have hloc : s.flights[i].loc = loc := by simpa using hloc
  exact ⟨s.flights[i].packet, by rw [List.getElem?_eq_getElem hi, ← hloc]⟩

theorem Stepped.of_step {qNum : ℕ} {s s' : Fabric} {a : FabricAction}
    (h : step qNum a s = some s') : Stepped qNum s a s' := by
  cases a with
  | inject m =>
      simp only [step, Option.ite_none_right_eq_some, Option.some.injEq] at h
      obtain ⟨hm, rfl⟩ := h
      exact .inject m hm
  | dirTick i =>
      simp only [step, Option.bind_eq_bind, Option.bind_eq_some_iff,
        Option.ite_none_right_eq_some, Option.some.injEq] at h
      obtain ⟨p, hp, ⟨hd, hr⟩, rfl⟩ := h
      exact .dirTick i p (netAt_eq_some hp) hd hr
  | dirCopy h' =>
      simp only [step, Option.ite_none_right_eq_some, Option.some.injEq] at h
      obtain ⟨hr, rfl⟩ := h
      exact .dirCopy h' hr
  | ccTick i =>
      simp only [step, Option.bind_eq_bind, Option.bind_eq_some_iff,
        Option.ite_none_right_eq_some, Option.some.injEq] at h
      obtain ⟨p, hp, ⟨hd, hr⟩, rfl⟩ := h
      exact .ccTick i p (netAt_eq_some hp) hd hr
  | ccCopy n =>
      simp only [step, Option.ite_none_right_eq_some, Option.some.injEq] at h
      obtain ⟨hr, rfl⟩ := h
      exact .ccCopy n hr
  | pop loc =>
      simp only [step, Option.ite_none_left_eq_some, Option.map_eq_some_iff] at h
      obtain ⟨hl, i, hi, rfl⟩ := h
      obtain ⟨p, hp⟩ := front_eq_some hi
      exact .pop loc i p hl hp hi

/-- The directory tick on message `p`. -/
def tick (s : Fabric) (p : Packet) : DirTick :=
  transaction (s.dirRegs p.msg.dirGblockNodeID) p.msg (s.dir p.msg.block)

theorem tick_case (s : Fabric) (p : Packet) :
    DirCase (s.dirRegs p.msg.dirGblockNodeID) p.msg (s.dir p.msg.block) (s.tick p) :=
  .of_transaction _ _ _

/-- What the invariant leaves of a directory tick: a request is answered at once or opens a
transaction, or an acknowledgement of the pending transaction is consumed. -/
inductive DirTicked (s : Fabric) (i : ℕ) (p : Packet) : Fabric → Prop
  | answered (hm : p.msg.mtype.isRequest)
      (hstay : (s.tick p).dirData.state.isTransient = (s.dir p.msg.block).state.isTransient) :
      DirTicked s i p { s with
        dir := Function.update s.dir p.msg.block (s.tick p).dirData
        flights := s.flights.eraseIdx i ++ send p.ticket (s.tick p).out }
  | opened (hm : p.msg.mtype.isRequest)
      (hstable : (s.dir p.msg.block).state.isTransient = false)
      (htrans : (s.tick p).dirData.state.isTransient) :
      DirTicked s i p { s with
        dir := Function.update s.dir p.msg.block (s.tick p).dirData
        dirRegs := Function.update s.dirRegs p.msg.dirGblockNodeID (s.tick p).regs
        dirTicket := Function.update s.dirTicket p.msg.dirGblockNodeID
          (if (s.tick p).regs.regCopyFlag then p.ticket else s.dirTicket p.msg.dirGblockNodeID)
        txns := Function.update s.txns p.ticket.id
          (some (.start p.ticket p.msg (s.dir p.msg.block)))
        current := Function.update s.current p.msg.block (some p.ticket.id)
        flights := s.flights.eraseIdx i ++ send p.ticket (s.tick p).out }
  | acked (T : Txn) (hT : s.Belongs p.ticket p.msg T) (hm : p.msg.mtype = T.kind.ack)
      (htracks : T.Tracks (s.dir p.msg.block)) (ha : p.msg.agentClineNodeID ∈ T.missing)
      (hack : T.Acked p.msg (s.dir p.msg.block) (s.tick p)) :
      DirTicked s i p { s with
        dir := Function.update s.dir p.msg.block (s.tick p).dirData
        txns := Function.update s.txns p.ticket.id (some (T.observe p.msg (s.tick p).out))
        flights := s.flights.eraseIdx i ++ send p.ticket (s.tick p).out }

theorem mem_of_getElem? {s : Fabric} {i : ℕ} {f : Flight} (h : s.flights[i]? = some f) :
    f ∈ s.flights :=
  List.mem_of_getElem? h

/-- A message that the directory takes is a request or an acknowledgement, at the home node
of its block. -/
theorem routed_toDir {p : Packet} (h : (⟨.net, p⟩ : Flight).Routed) (hd : p.msg.mtype.toDir) :
    p.msg.dstNodeId = p.msg.dirGblockNodeID ∧
      (p.msg.mtype.isRequest ∧ p.ticket.kind = p.msg.mtype ∨ p.msg.mtype.isAck) := by
  rcases h with ⟨hm, hdst, hk⟩ | ⟨hm, -⟩ | ⟨hm, hdst⟩ | ⟨hm, -⟩
  · exact ⟨hdst, .inl ⟨hm, hk⟩⟩
  · cases ht : p.msg.mtype <;> simp_all [RawMessageType.toDir, RawMessageType.isOrder,
      RawMessageType.isRequest, RawMessageType.isAgent2Dir]
  · exact ⟨hdst, .inr hm⟩
  · cases ht : p.msg.mtype <;> simp_all [RawMessageType.toDir, RawMessageType.isAnswer,
      RawMessageType.isRequest, RawMessageType.isAgent2Dir]

/-- A message that the cache controller takes is an order or an answer, at the node it is
meant for. -/
theorem routed_toCc {p : Packet} (h : (⟨.net, p⟩ : Flight).Routed)
    (hd : p.msg.mtype.toDir = false) :
    p.msg.mtype.isOrder ∧ p.msg.dstNodeId = p.msg.agentClineNodeID ∨
      p.msg.mtype.isAnswer ∧ p.msg.dstNodeId = p.msg.reqClineNodeID := by
  rcases h with ⟨hm, -⟩ | ⟨hm, hdst⟩ | ⟨hm, -⟩ | ⟨hm, hdst⟩
  · simp [RawMessageType.toDir, hm] at hd
  · exact .inl ⟨hm, hdst⟩
  · cases ht : p.msg.mtype <;> simp_all [RawMessageType.toDir, RawMessageType.isAck,
      RawMessageType.isRequest, RawMessageType.isAgent2Dir]
  · exact .inr ⟨hm, hdst⟩

end Fabric

namespace FabricInv

open Fabric

variable {s : Fabric}

/-- While a debt for block `b` is about, its entry is transient and tracked. -/
theorem tracks (h : FabricInv s) {k : Ticket} {m : CtrlMsg} {T : Txn} (hT : s.Belongs k m T) :
    T.Tracks (s.dir m.block) ∧ s.missing m.block = T.missing := by
  obtain ⟨htxn, hstate, -, -⟩ := hT
  have htrans : (s.dir m.block).state.isTransient := by
    rw [hstate]
    exact TxnKind.state_isTransient _
  obtain ⟨T', hT', htracks⟩ := (h.consistent m.block).tracks htrans
  have : T' = T := by
    rw [htxn] at hT'
    exact (Option.some.inj hT').symm
  subst this
  refine ⟨htracks, ?_⟩
  rw [Fabric.missing, if_pos htrans, hT']
  rfl

/-- A debt on the network is a debt of a node that the pending transaction misses. -/
theorem mem_missing (h : FabricInv s) {f : Flight} (hf : f ∈ s.flights) (hnet : f.loc = .net)
    (hd : f.packet.msg.isDebt) :
    f.packet.msg.agentClineNodeID ∈ s.missing f.packet.msg.block := by
  have hle := le_total (f := Flight.owes f.packet.msg.block f.packet.msg.agentClineNodeID) hf
  have hone : f.owes f.packet.msg.block f.packet.msg.agentClineNodeID = 1 := by
    simp [Flight.owes, hnet, CtrlMsg.owes, hd]
  have hpend := h.pending f.packet.msg.block f.packet.msg.agentClineNodeID
  by_contra hn
  rw [if_neg hn, Fabric.pending] at hpend
  omega

/-- An acknowledgement on the network is the one its transaction awaits. -/
theorem ack_belongs (h : FabricInv s) {i : ℕ} {p : Packet}
    (hp : s.flights[i]? = some ⟨.net, p⟩) (hm : p.msg.mtype.isAck) :
    ∃ T, s.Belongs p.ticket p.msg T ∧ p.msg.mtype = T.kind.ack := by
  obtain ⟨T, hT, hkind⟩ := h.debt _ (mem_of_getElem? hp) rfl (by simp [CtrlMsg.isDebt, hm])
  refine ⟨T, hT, hkind.resolve_left fun horder => ?_⟩
  rw [horder] at hm
  cases hk : T.kind <;> rw [hk] at hm <;> cases hm

/-- Every directory tick is one of the three. -/
theorem dirTicked (h : FabricInv s) {i : ℕ} {p : Packet} (hp : s.flights[i]? = some ⟨.net, p⟩)
    (hd : p.msg.mtype.toDir) (hr : (s.dirRegs p.msg.dstNodeId).regCopyFlag = false) :
    DirTicked s i p (s.afterDirTick i p) := by
  have hmem := mem_of_getElem? hp
  obtain ⟨hdst, hkind⟩ := routed_toDir (h.routed _ hmem) hd
  have hb : (⟨p.msg.dirGblockNodeID, p.msg.dirGblockIndex⟩ : Block) = p.msg.block := rfl
  have htick : transaction (s.dirRegs p.msg.dirGblockNodeID) p.msg (s.dir p.msg.block) = s.tick p :=
    rfl
  have hcase := s.tick_case p
  rw [hdst] at hr
  unfold afterDirTick observe
  simp only [hdst, hb, htick]
  rcases hkind with ⟨hm, -⟩ | hm
  · by_cases hstart : (s.dir p.msg.block).state.isTransient = false ∧
        (s.tick p).dirData.state.isTransient = true
    · simp only [hstart.1, hstart.2, Bool.not_false, Bool.and_self, if_true]
      exact .opened hm hstart.1 hstart.2
    · have hstay : (s.tick p).dirData.state.isTransient
          = (s.dir p.msg.block).state.isTransient := by
        cases ht : (s.dir p.msg.block).state.isTransient
        · cases ht' : (s.tick p).dirData.state.isTransient
          · rfl
          · exact absurd ⟨ht, ht'⟩ hstart
        · rw [hcase.bounces hm ht, ht]
      obtain ⟨-, -, hregs⟩ := (h.consistent p.msg.block).request hm hcase hstay
      have hfresh : s.txns p.ticket.id = none := h.fresh _ hmem rfl hm
      simp only [hstay, Bool.not_and_self, Bool.false_eq_true, if_false, hfresh, Option.map_none,
        hregs, hr]
      rw [← hfresh, Function.update_eq_self, Function.update_eq_self, Function.update_eq_self]
      exact .answered hm hstay
  · obtain ⟨T, hT, hmT⟩ := h.ack_belongs hp hm
    obtain ⟨htracks, hmiss⟩ := h.tracks hT
    have ha : p.msg.agentClineNodeID ∈ T.missing := by
      rw [← hmiss]
      exact h.mem_missing hmem rfl (by simp [CtrlMsg.isDebt, hm])
    have hreq : p.msg.reqClineNodeID = T.req := (congrArg Header.reqClineNodeID hT.2.2.2).symm
    obtain ⟨hregs, hack⟩ := htracks.ack hmT hreq ha hcase
    have htrans : (s.dir p.msg.block).state.isTransient := by
      rw [htracks.state]
      exact TxnKind.state_isTransient _
    have htxn : s.txns p.ticket.id = some T := by
      obtain ⟨i', hi', hT'⟩ := Option.bind_eq_some_iff.mp hT.1
      have := (h.recorded _ _ hT').1
      rw [← hT.2.2.1, this, hT']
    simp only [htrans, Bool.not_true, Bool.false_and, Bool.false_eq_true, if_false, hregs, hr, htxn,
      Option.map_some]
    rw [Function.update_eq_self, Function.update_eq_self]
    exact .acked T hT hmT htracks ha hack

end FabricInv

/-! ## Weights of what a step adds -/

section Weights

open Fabric

variable {s : Fabric}

@[simp] theorem total_send {M : Type} [AddCommMonoid M] (f : Flight → M) (k : Ticket)
    (out : Option CtrlMsg) :
    total f (send k out) = out.elim 0 fun m => f ⟨.net, ⟨k, m⟩⟩ := by
  cases out <;> simp [send]

theorem mem_send {k : Ticket} {out : Option CtrlMsg} {f : Flight} :
    f ∈ send k out ↔ ∃ m, out = some m ∧ f = ⟨.net, ⟨k, m⟩⟩ := by
  cases out <;> simp [send]

theorem not_debt_of_request {m : CtrlMsg} (h : m.mtype.isRequest) : m.isDebt = false := by
  unfold CtrlMsg.isDebt
  cases ht : m.mtype <;> rw [ht] at h <;> first | rfl | cases h

theorem not_debt_of_answer {m : CtrlMsg} (h : m.mtype.isAnswer) : m.isDebt = false := by
  unfold CtrlMsg.isDebt
  cases ht : m.mtype <;> rw [ht] at h <;> first | rfl | cases h

theorem owes_of_not_debt {b : Block} {n : NodeId} {m : CtrlMsg} (h : m.isDebt = false) :
    m.owes b n = 0 := by
  simp [CtrlMsg.owes, h]

theorem owes_debt {b : Block} {n : NodeId} {m : CtrlMsg} (hm : m.mtype.isOrder ∨ m.mtype.isAck) :
    m.owes b n = if m.block = b ∧ m.agentClineNodeID = n then 1 else 0 := by
  have : m.isDebt := by simpa [CtrlMsg.isDebt] using hm
  simp [CtrlMsg.owes, this]

/-- A message that is not a request. -/
theorem requests_eq_zero {i : ℕ} {f : Flight} (hf : f.packet.msg.mtype.isRequest = false) :
    f.requests i = 0 := by
  simp [Flight.requests, hf]

theorem not_request_of_order {t : RawMessageType} (h : t.isOrder) : t.isRequest = false := by
  cases t <;> first | rfl | cases h

theorem not_request_of_ack {t : RawMessageType} (h : t.isAck) : t.isRequest = false := by
  cases t <;> first | rfl | cases h

theorem not_request_of_answer {t : RawMessageType} (h : t.isAnswer) : t.isRequest = false := by
  cases t <;> first | rfl | cases h

/-- A message that a stage may add: it is where it belongs, is not a request, and if it is a
debt then one of the pending transaction. -/
structure Addable (s : Fabric) (f : Flight) : Prop where
  routed : f.Routed
  not_request : f.packet.msg.mtype.isRequest = false
  issued : f.packet.ticket.id < s.nextId
  debt : f.loc = .net → f.packet.msg.isDebt →
    ∃ T, s.Belongs f.packet.ticket f.packet.msg T ∧
      (f.packet.msg.mtype = T.kind.order ∨ f.packet.msg.mtype = T.kind.ack)

theorem Addable.answer {k : Ticket} {loc : Loc} {m : CtrlMsg} (hm : m.mtype.isAnswer)
    (hk : k.id < s.nextId) (hr : (⟨loc, ⟨k, m⟩⟩ : Flight).Routed) : Addable s ⟨loc, ⟨k, m⟩⟩ :=
  ⟨hr, not_request_of_answer hm, hk, fun _ hd => by
    rw [show m.isDebt = false from not_debt_of_answer hm] at hd
    cases hd⟩

/-- Messages may be taken away and addable ones added. -/
theorem FlightsOk.change {fl fl' l : List Flight} (h : FlightsOk s fl)
    (hsub : ∀ f ∈ fl', f ∈ fl) (hreq : ∀ i, total (Flight.requests i) fl' ≤ total (Flight.requests i) fl)
    (hadd : ∀ f ∈ l, Addable s f) : FlightsOk s (fl' ++ l) where
  routed := fun f hf => (List.mem_append.mp hf).elim (fun hf => h.routed f (hsub f hf))
    fun hf => (hadd f hf).routed
  fresh := by
    intro f hf hnet hq
    rcases List.mem_append.mp hf with hf | hf
    · exact h.fresh f (hsub f hf) hnet hq
    · rw [(hadd f hf).not_request] at hq
      cases hq
  unique := by
    intro i
    have hz : total (Flight.requests i) l = 0 :=
      total_eq_zero fun f hf => requests_eq_zero (hadd f hf).not_request
    rw [total_append, hz]
    exact le_trans (hreq i) (h.unique i)
  issued := fun f hf => (List.mem_append.mp hf).elim (fun hf => h.issued f (hsub f hf))
    fun hf => (hadd f hf).issued
  debt := fun f hf => (List.mem_append.mp hf).elim (fun hf => h.debt f (hsub f hf))
    fun hf => (hadd f hf).debt

theorem requests_eraseIdx_le {i j : ℕ} {f : Flight} {fl : List Flight} (hf : fl[i]? = some f) :
    total (Flight.requests j) (fl.eraseIdx i) ≤ total (Flight.requests j) fl := by
  have := total_eraseIdx (Flight.requests j) hf
  omega

theorem FlightsOk.erase {fl l : List Flight} {i : ℕ} {f : Flight} (h : FlightsOk s fl)
    (hf : fl[i]? = some f) (hadd : ∀ f ∈ l, Addable s f) : FlightsOk s (fl.eraseIdx i ++ l) :=
  h.change (fun _ => List.mem_of_mem_eraseIdx) (fun _ => requests_eraseIdx_le hf) hadd

/-- A debt of the pending transaction stays one of a pending transaction of the same kind. -/
def Carries (s s' : Fabric) (k : Ticket) (m : CtrlMsg) : Prop :=
  ∀ T, s.Belongs k m T → ∃ T', s'.Belongs k m T' ∧ T'.kind = T.kind

/-- Messages stay in order when the records change so that requests stay fresh and debts
stay with their transactions. -/
theorem FlightsOk.transfer {s' : Fabric} {fl : List Flight} (h : FlightsOk s fl)
    (hfresh : ∀ f ∈ fl, f.loc = .net → f.packet.msg.mtype.isRequest →
      s.txns f.packet.ticket.id = none → s'.txns f.packet.ticket.id = none)
    (hid : s.nextId ≤ s'.nextId)
    (hdebt : ∀ f ∈ fl, f.loc = .net → f.packet.msg.isDebt →
      Carries s s' f.packet.ticket f.packet.msg) : FlightsOk s' fl := by
  refine ⟨h.routed, ?_, h.unique, fun f hf => lt_of_lt_of_le (h.issued f hf) hid, ?_⟩
  · intro f hf hnet hq
    exact hfresh f hf hnet hq (h.fresh f hf hnet hq)
  · intro f hf hnet hd
    obtain ⟨T, hT, hk⟩ := h.debt f hf hnet hd
    obtain ⟨T', hT', hkind⟩ := hdebt f hf hnet hd T hT
    exact ⟨T', hT', hkind ▸ hk⟩

/-- The records, the entries and the ticket counter are as they were. -/
theorem FlightsOk.same {s' : Fabric} {fl : List Flight} (h : FlightsOk s fl)
    (htxns : s'.txns = s.txns) (hcur : s'.current = s.current) (hdir : s'.dir = s.dir)
    (hid : s'.nextId = s.nextId) : FlightsOk s' fl := by
  refine h.transfer (fun _ _ _ _ hn => htxns ▸ hn) hid.ge fun f _ _ _ T hT => ⟨T, ?_, rfl⟩
  simpa only [Belongs, txnOf, htxns, hcur, hdir] using hT

end Weights

namespace FabricInv

open Fabric

variable {s : Fabric}

/-- The ticket of the pending transaction has been issued. -/
theorem belongs_issued (h : FabricInv s) {k : Ticket} {m : CtrlMsg} {T : Txn}
    (hT : s.Belongs k m T) : k.id < s.nextId := by
  obtain ⟨i, -, hi⟩ := Option.bind_eq_some_iff.mp hT.1
  have := h.recorded _ _ hi
  rw [← hT.2.2.1, this.1]
  exact this.2

/-! ## Steps that only move messages -/

theorem inject (h : FabricInv s) {m : CtrlMsg} (hm : m.mtype.isRequest) :
    FabricInv (s.afterInject m) where
  routed := by
    intro f hf
    rcases List.mem_append.mp hf with hf | hf
    · exact h.routed f hf
    · rw [List.mem_singleton.mp hf]
      exact .inl ⟨hm, rfl, rfl⟩
  ccRouted := h.ccRouted
  dirRouted := h.dirRouted
  fresh := by
    intro f hf hnet hreq
    rcases List.mem_append.mp hf with hf | hf
    · exact h.fresh f hf hnet hreq
    · rw [List.mem_singleton.mp hf]
      by_contra hne
      obtain ⟨T, hT⟩ := Option.ne_none_iff_exists'.mp hne
      exact absurd (h.recorded _ _ hT).2 (lt_irrefl _)
  unique := by
    intro i
    have hu := h.unique i
    by_cases hi : i = s.nextId
    · have hz : total (Flight.requests i) s.flights = 0 := total_eq_zero fun f hf => by
        have := h.issued f hf
        simp only [Flight.requests]
        rw [if_neg]
        rintro ⟨-, -, rfl⟩
        omega
      simp only [afterInject, total_append, hz, total_cons, total_nil, Flight.requests]
      split <;> omega
    · have hz : (⟨.net, ⟨⟨s.nextId, m.mtype⟩, cacheCtrlToNet m⟩⟩ : Flight).requests i = 0 := by
        simp [Flight.requests, Ne.symm hi]
      simpa only [afterInject, total_append, total_cons, total_nil, hz, add_zero] using hu
  issued := by
    intro f hf
    rcases List.mem_append.mp hf with hf | hf
    · exact Nat.lt_succ_of_lt (h.issued f hf)
    · rw [List.mem_singleton.mp hf]
      exact Nat.lt_succ_self _
  recorded := fun i T hT => ⟨(h.recorded i T hT).1, Nat.lt_succ_of_lt (h.recorded i T hT).2⟩
  current := h.current
  consistent := h.consistent
  pending := by
    intro b n
    have hz : (⟨.net, ⟨⟨s.nextId, m.mtype⟩, cacheCtrlToNet m⟩⟩ : Flight).owes b n = 0 := by
      simp only [Flight.owes, if_true]
      exact owes_of_not_debt (not_debt_of_request hm)
    show total (Flight.owes b n) (s.flights ++ [_]) + (s.ccRegs n).owes b
      + (s.dirRegs b.nodeID).owes b n = if n ∈ s.missing b then 1 else 0
    rw [total_append, total_cons, total_nil, hz]
    exact h.pending b n
  debt := by
    intro f hf hnet hd
    rcases List.mem_append.mp hf with hf | hf
    · exact h.debt f hf hnet hd
    · rw [List.mem_singleton.mp hf] at hd
      exact absurd (not_debt_of_request (m := cacheCtrlToNet m) hm) (by simp [hd])
  ccDebt := h.ccDebt
  dirDebt := h.dirDebt
  settled := h.settled

theorem pop (h : FabricInv s) {loc : Loc} {i : ℕ} {p : Packet} (hl : loc ≠ .net)
    (hp : s.flights[i]? = some ⟨loc, p⟩) : FabricInv (s.afterPop i) where
  toFlightsOk := by
    have := h.toFlightsOk.erase (l := []) hp (by simp)
    rw [List.append_nil] at this
    exact this.same rfl rfl rfl rfl
  ccRouted := h.ccRouted
  dirRouted := h.dirRouted
  recorded := h.recorded
  current := h.current
  consistent := h.consistent
  pending := by
    intro b n
    have ht := total_eraseIdx (Flight.owes b n) hp
    have hz : (⟨loc, p⟩ : Flight).owes b n = 0 := by simp [Flight.owes, hl]
    rw [hz, zero_add] at ht
    show total (Flight.owes b n) (s.flights.eraseIdx i) + (s.ccRegs n).owes b
      + (s.dirRegs b.nodeID).owes b n = if n ∈ s.missing b then 1 else 0
    rw [ht]
    exact h.pending b n
  ccDebt := h.ccDebt
  dirDebt := h.dirDebt
  settled := h.settled

/-! ## Steps of the cache controller -/

/-- The owed acknowledgement. -/
theorem cacheCtrlCopy_eq {n : NodeId} {r : CcRegs} (hr : r.Routed n) (hf : r.regCopyFlag)
    {k : TxnKind} (hk : r.regCtrlMsg.mtype = k.order) :
    cacheCtrlCopy r = ({ r with regCopyFlag := false }, some (r.regCtrlMsg.toHome k.ack)) := by
  unfold cacheCtrlCopy
  rcases (hr hf).2 with hm | hm <;> rw [hm] at hk <;> cases k <;> cases hk <;> simp only [hm] <;>
    rfl

theorem ccCopy (h : FabricInv s) {n : NodeId} (hf : (s.ccRegs n).regCopyFlag) :
    FabricInv (s.afterCcCopy n) := by
  obtain ⟨T, hT, hk⟩ := h.ccDebt n hf
  have hcopy := cacheCtrlCopy_eq (h.ccRouted n) hf hk
  have hagent := ((h.ccRouted n) hf).1
  set m := (s.ccRegs n).regCtrlMsg with hm
  have hback : T.kind.ack.isAck := by cases T.kind <;> rfl
  have hs' : s.afterCcCopy n = { s with
      ccRegs := Function.update s.ccRegs n { s.ccRegs n with regCopyFlag := false }
      flights := s.flights ++ [⟨.net, ⟨s.ccTicket n, m.toHome T.kind.ack⟩⟩] } := by
    simp only [afterCcCopy, hcopy]
    rfl
  rw [hs']
  refine { h with toFlightsOk := ?_, ccRouted := ?_, pending := ?_, ccDebt := ?_ }
  · refine (h.toFlightsOk.change (fun _ hf => hf) (fun _ => le_rfl) fun f hf' => ?_).same
      rfl rfl rfl rfl
    rw [List.mem_singleton.mp hf']
    exact ⟨.inr (.inr (.inl ⟨hback, rfl⟩)), not_request_of_ack hback, h.belongs_issued hT,
      fun _ _ => ⟨T, hT, .inr rfl⟩⟩
  · intro k
    by_cases hkn : k = n
    · subst hkn
      intro hflag
      simp at hflag
    · simpa [Function.update_of_ne hkn] using h.ccRouted k
  · intro b k
    show total (Flight.owes b k) (s.flights ++ [_])
      + (Function.update s.ccRegs n { s.ccRegs n with regCopyFlag := false } k).owes b
      + (s.dirRegs b.nodeID).owes b k = if k ∈ s.missing b then 1 else 0
    rw [← h.pending b k, Fabric.pending, total_append, total_cons, total_nil, Flight.owes,
      if_pos rfl, owes_debt (.inr hback)]
    by_cases hkn : k = n
    · subst hkn
      simp only [Function.update_self, CcRegs.owes, hf, true_and, Bool.false_eq_true, false_and,
        if_false]
      have hx : (m.toHome T.kind.ack).block = b ∧
          (m.toHome T.kind.ack).agentClineNodeID = k ↔ (s.ccRegs k).regCtrlMsg.block = b :=
        and_iff_left hagent
      simp only [hx]
      omega
    · have hne : ¬ (m.block = b ∧ m.agentClineNodeID = k) := fun hc => hkn (hc.2 ▸ hagent ▸ rfl)
      rw [Function.update_of_ne hkn]
      show _ + ((if m.block = b ∧ m.agentClineNodeID = k then 1 else 0) + 0) + _ + _ = _
      rw [if_neg hne]
      omega
  · intro k hflag
    by_cases hkn : k = n
    · subst hkn
      simp at hflag
    · simp only [Function.update_of_ne hkn] at hflag ⊢
      exact h.ccDebt k hflag

/-- What a cache controller does with an order: pass it on, and either acknowledge it, or
ship the line and keep the acknowledgement in its register. -/
theorem cacheCtrlFromNet_order {r : CcRegs} {m : CtrlMsg} {k : TxnKind}
    (hk : m.mtype = k.order) :
    cacheCtrlFromNet r m =
      if k.isShared then ⟨r, m.forThread .sys, some ((m.forThread .sys).toHome k.ack)⟩
      else ⟨⟨true, m.forThread .sys⟩, m.forThread .sys,
        some ((m.forThread .sys).toRequester k.grant)⟩ := by
  unfold cacheCtrlFromNet
  cases k <;> simp only [TxnKind.order] at hk <;> rw [hk] <;> rfl

/-- What a cache controller does with an answer. -/
theorem cacheCtrlFromNet_answer {r : CcRegs} {m : CtrlMsg} (hm : m.mtype.isAnswer) :
    cacheCtrlFromNet r m = ⟨r, m.forThread .app, none⟩ := by
  unfold cacheCtrlFromNet
  cases ht : m.mtype <;> rw [ht] at hm <;> first | rfl | cases hm

/-- What the invariant leaves of a tick of the cache controller of node `n`: an order is
passed to an agent and acknowledged, or passed to an agent while the line is shipped, or an
answer is passed to its thread. -/
inductive CcTicked (qNum : ℕ) (s : Fabric) (i : ℕ) (p : Packet) : Fabric → Prop
  | acked (T : Txn) (hT : s.Belongs p.ticket p.msg T) (hm : p.msg.mtype = T.kind.order)
      (hk : T.kind.isShared) :
      CcTicked qNum s i p { s with
        regQId := Function.update s.regQId p.msg.agentClineNodeID
          (sysQueue qNum (s.regQId p.msg.agentClineNodeID)).2
        flights := s.flights.eraseIdx i ++
          [⟨.sys p.msg.agentClineNodeID (sysQueue qNum (s.regQId p.msg.agentClineNodeID)).1,
              ⟨p.ticket, p.msg.forThread .sys⟩⟩,
            ⟨.net, ⟨p.ticket, (p.msg.forThread .sys).toHome T.kind.ack⟩⟩] }
  | shipped (T : Txn) (hT : s.Belongs p.ticket p.msg T) (hm : p.msg.mtype = T.kind.order)
      (hk : T.kind.isShared = false) :
      CcTicked qNum s i p { s with
        ccRegs := Function.update s.ccRegs p.msg.agentClineNodeID ⟨true, p.msg.forThread .sys⟩
        ccTicket := Function.update s.ccTicket p.msg.agentClineNodeID p.ticket
        regQId := Function.update s.regQId p.msg.agentClineNodeID
          (sysQueue qNum (s.regQId p.msg.agentClineNodeID)).2
        flights := s.flights.eraseIdx i ++
          [⟨.sys p.msg.agentClineNodeID (sysQueue qNum (s.regQId p.msg.agentClineNodeID)).1,
              ⟨p.ticket, p.msg.forThread .sys⟩⟩,
            ⟨.net, ⟨p.ticket, (p.msg.forThread .sys).toRequester T.kind.grant⟩⟩] }
  | answered (hm : p.msg.mtype.isAnswer) :
      CcTicked qNum s i p { s with
        flights := s.flights.eraseIdx i ++
          [⟨.app p.msg.reqClineNodeID p.msg.reqClineAppThreadID,
            ⟨p.ticket, p.msg.forThread .app⟩⟩] }

theorem ccTicked (h : FabricInv s) {qNum i : ℕ} {p : Packet}
    (hp : s.flights[i]? = some ⟨.net, p⟩) (hd : p.msg.mtype.toDir = false)
    (hr : (s.ccRegs p.msg.dstNodeId).regCopyFlag = false) :
    CcTicked qNum s i p (s.afterCcTick qNum i p) := by
  have hmem := mem_of_getElem? hp
  rcases routed_toCc (h.routed _ hmem) hd with ⟨hm, hdst⟩ | ⟨hm, hdst⟩
  · obtain ⟨T, hT, hk⟩ := h.debt _ hmem rfl (by simp [CtrlMsg.isDebt, hm])
    have hk : p.msg.mtype = T.kind.order := hk.resolve_right fun hack => by
      rw [hack] at hm
      cases hkind : T.kind <;> rw [hkind] at hm <;> cases hm
    have hcc := cacheCtrlFromNet_order (r := s.ccRegs p.msg.agentClineNodeID) hk
    rw [hdst] at hr
    unfold afterCcTick cpuLoc
    simp only [hdst, hcc]
    cases hsh : T.kind.isShared
    · simp only [Bool.false_eq_true, if_false, if_true]
      exact .shipped T hT hk hsh
    · simp only [if_true, hr, Bool.false_eq_true, if_false, Function.update_eq_self]
      exact .acked T hT hk hsh
  · have hcc := cacheCtrlFromNet_answer (r := s.ccRegs p.msg.reqClineNodeID) hm
    rw [hdst] at hr
    unfold afterCcTick cpuLoc
    simp only [hdst, hcc, hr, Bool.false_eq_true, if_false]
    simp only [CtrlMsg.forThread, Function.update_eq_self]
    exact .answered hm

theorem order_isOrder (k : TxnKind) : k.order.isOrder := by
  cases k <;> rfl

theorem ack_isAck (k : TxnKind) : k.ack.isAck := by
  cases k <;> rfl

theorem grant_isAnswer (k : TxnKind) : k.grant.isAnswer := by
  cases k <;> rfl

/-- An order in a queue of node `n` may be added. -/
theorem addable_sys (h : FabricInv s) {k : Ticket} {m : CtrlMsg} {T : Txn} {a : AgentId}
    (hT : s.Belongs k m T) (hm : m.mtype = T.kind.order) :
    Addable s ⟨.sys m.agentClineNodeID a, ⟨k, m.forThread .sys⟩⟩ := by
  have ho : m.mtype.isOrder := hm ▸ order_isOrder _
  exact ⟨⟨ho, rfl⟩, not_request_of_order ho, h.belongs_issued hT, fun hnet => by cases hnet⟩

theorem ccTick (h : FabricInv s) {qNum i : ℕ} {p : Packet} {s' : Fabric}
    (hp : s.flights[i]? = some ⟨.net, p⟩)
    (hr : (s.ccRegs p.msg.dstNodeId).regCopyFlag = false) (hc : CcTicked qNum s i p s') :
    FabricInv s' := by
  have hmem := mem_of_getElem? hp
  have hroute := h.routed _ hmem
  have htot := fun b n => total_eraseIdx (Flight.owes b n) hp
  cases hc with
  | acked T hT hm hk =>
      have hack := ack_isAck T.kind
      refine { h with toFlightsOk := ?_, pending := ?_ }
      · refine (h.toFlightsOk.erase hp fun f hf => ?_).same rfl rfl rfl rfl
        simp only [List.mem_cons, List.not_mem_nil, or_false] at hf
        rcases hf with rfl | rfl
        · exact h.addable_sys hT hm
        · exact ⟨.inr (.inr (.inl ⟨hack, rfl⟩)), not_request_of_ack hack, h.belongs_issued hT,
            fun _ _ => ⟨T, hT, .inr rfl⟩⟩
      · intro b n
        show total (Flight.owes b n) (s.flights.eraseIdx i ++ [_, _]) + (s.ccRegs n).owes b
          + (s.dirRegs b.nodeID).owes b n = if n ∈ s.missing b then 1 else 0
        rw [← h.pending b n, Fabric.pending, ← htot b n]
        have hout : (⟨.net, ⟨p.ticket, (p.msg.forThread .sys).toHome T.kind.ack⟩⟩ : Flight).owes b n
            = (⟨.net, p⟩ : Flight).owes b n := by
          simp only [Flight.owes, if_true]
          rw [owes_debt (.inr hack), owes_debt (.inl (hm ▸ order_isOrder _))]
          rfl
        have hsys : ∀ q a k, (⟨.sys a k, q⟩ : Flight).owes b n = 0 := fun _ _ _ => rfl
        rw [total_append, total_cons, total_cons, total_nil, hsys, hout]
        omega
  | shipped T hT hm hk =>
      have ho : p.msg.mtype.isOrder := hm ▸ order_isOrder _
      have hgrant := grant_isAnswer T.kind
      have hdst : p.msg.dstNodeId = p.msg.agentClineNodeID := by
        rcases hroute with ⟨hq, -⟩ | ⟨-, hdst⟩ | ⟨hq, -⟩ | ⟨hq, -⟩
        · rw [not_request_of_order ho] at hq; cases hq
        · exact hdst
        · rw [hm] at hq; cases hkk : T.kind <;> rw [hkk] at hq <;> cases hq
        · rw [hm] at hq; cases hkk : T.kind <;> rw [hkk] at hq <;> cases hq
      rw [hdst] at hr
      refine { h with toFlightsOk := ?_, ccRouted := ?_, pending := ?_, ccDebt := ?_ }
      · refine (h.toFlightsOk.erase hp fun f hf => ?_).same rfl rfl rfl rfl
        simp only [List.mem_cons, List.not_mem_nil, or_false] at hf
        rcases hf with rfl | rfl
        · exact h.addable_sys hT hm
        · exact .answer hgrant (h.belongs_issued hT) (.inr (.inr (.inr ⟨hgrant, rfl⟩)))
      · intro k hflag
        by_cases hkn : k = p.msg.agentClineNodeID
        · subst hkn
          simp only [Function.update_self]
          refine ⟨rfl, ?_⟩
          cases hkk : T.kind <;> rw [hkk] at hm hk
          · exact .inl hm
          · exact .inr hm
          · cases hk
          · cases hk
        · simp only [Function.update_of_ne hkn] at hflag ⊢
          exact h.ccRouted k hflag
      · intro b n
        show total (Flight.owes b n) (s.flights.eraseIdx i ++ [_, _])
          + (Function.update s.ccRegs p.msg.agentClineNodeID ⟨true, p.msg.forThread .sys⟩ n).owes b
          + (s.dirRegs b.nodeID).owes b n = if n ∈ s.missing b then 1 else 0
        rw [← h.pending b n, Fabric.pending, ← htot b n]
        have hsys : ∀ q a k, (⟨.sys a k, q⟩ : Flight).owes b n = 0 := fun _ _ _ => rfl
        have hout : (⟨.net, ⟨p.ticket, (p.msg.forThread .sys).toRequester T.kind.grant⟩⟩
            : Flight).owes b n = 0 := by
          simp only [Flight.owes, if_true]
          exact owes_of_not_debt (not_debt_of_answer hgrant)
        have hin : (⟨.net, p⟩ : Flight).owes b n
            = if p.msg.block = b ∧ p.msg.agentClineNodeID = n then 1 else 0 := by
          simp only [Flight.owes, if_true]
          exact owes_debt (.inl ho)
        rw [total_append, total_cons, total_cons, total_nil, hsys, hout, hin]
        by_cases hn : n = p.msg.agentClineNodeID
        · subst hn
          have hz : (s.ccRegs p.msg.agentClineNodeID).owes b = 0 := by simp [CcRegs.owes, hr]
          have hone : (⟨true, p.msg.forThread .sys⟩ : CcRegs).owes b
              = if p.msg.block = b then 1 else 0 := by
            simp only [CcRegs.owes, true_and]
            rfl
          simp only [Function.update_self, hone, hz, and_true]
          omega
        · simp only [Function.update_of_ne hn, Ne.symm hn, and_false, if_false]
          omega
      · intro k hflag
        by_cases hkn : k = p.msg.agentClineNodeID
        · subst hkn
          simp only [Function.update_self]
          exact ⟨T, hT, hm⟩
        · simp only [Function.update_of_ne hkn] at hflag ⊢
          exact h.ccDebt k hflag
  | answered hm =>
      refine { h with toFlightsOk := ?_, pending := ?_ }
      · refine (h.toFlightsOk.erase hp fun f hf => ?_).same rfl rfl rfl rfl
        rw [List.mem_singleton.mp hf]
        exact .answer hm (h.issued _ hmem) ⟨hm, rfl, rfl⟩
      · intro b n
        show total (Flight.owes b n) (s.flights.eraseIdx i ++ [_]) + (s.ccRegs n).owes b
          + (s.dirRegs b.nodeID).owes b n = if n ∈ s.missing b then 1 else 0
        rw [← h.pending b n, Fabric.pending, ← htot b n]
        have hin : (⟨.net, p⟩ : Flight).owes b n = 0 := by
          simp only [Flight.owes, if_true]
          exact owes_of_not_debt (not_debt_of_answer hm)
        have happ : ∀ q a k, (⟨.app a k, q⟩ : Flight).owes b n = 0 := fun _ _ _ => rfl
        rw [total_append, total_cons, total_nil, happ, hin]
        omega

/-! ## The multicast -/

/-- What a step of the multicast of home `h` does: it stops when no cell is left, passes over
the requester, or sends the order to the node whose cell it clears. -/
inductive CopyStepped (k : TxnKind) (r : DirRegs) : DirRegs × Option CtrlMsg → Prop
  | stop (hnone : ∀ n, r.regDirData.dirGblockBitmap n = false) :
      CopyStepped k r ({ r with regCopyFlag := false }, none)
  | skip (hn : r.regDirData.dirGblockBitmap r.regCtrlMsg.reqClineNodeID = true) :
      CopyStepped k r ({ r with
        regDirData := r.regDirData.setBit r.regCtrlMsg.reqClineNodeID false }, none)
  | order (n : NodeId) (a : Addr) (hn : r.regDirData.dirGblockBitmap n = true)
      (hne : n ≠ r.regCtrlMsg.reqClineNodeID) :
      CopyStepped k r ({ r with regDirData := r.regDirData.setBit n false },
        some (r.regCtrlMsg.toAgent k.order n a))

theorem copyStepped {h : NodeId} {r : DirRegs} {k : TxnKind} (hr : r.Routed h)
    (hf : r.regCopyFlag) (hk : k.isShared)
    (hm : r.regCtrlMsg.mtype = if k = .writeMissShared then .rWriteMiss else .rWriteShared) :
    CopyStepped k r (copyStep r) := by
  obtain ⟨-, hstate, hreq⟩ := hr hf
  unfold copyStep
  cases k
  case readMissDirty | writeMissDirty => cases hk
  case writeMissShared =>
    simp only [if_true] at hm
    have hbit : r.regDirData.dirGblockBitmap r.regCtrlMsg.reqClineNodeID = false := by
      rcases hreq with ⟨-, hb⟩ | hq
      · exact hb
      · rw [hm] at hq; cases hq
    simp only [hm, hstate]
    cases hlast : lastSet r.regDirData.dirGblockBitmap with
    | none => exact .stop (lastSet_none.mp hlast)
    | some n =>
        have hn := lastSet_mem hlast
        refine .order n _ hn ?_
        rintro rfl
        rw [hbit] at hn
        cases hn
  case writeShared =>
    simp only [reduceCtorEq, if_false] at hm
    simp only [hm, hstate]
    cases hlast : lastSet r.regDirData.dirGblockBitmap with
    | none => exact .stop (lastSet_none.mp hlast)
    | some n =>
        have hn := lastSet_mem hlast
        by_cases hnr : n = r.regCtrlMsg.reqClineNodeID
        · subst hnr
          simp only [if_true]
          exact .skip hn
        · simp only [hnr, if_false]
          exact .order n _ hn hnr

theorem owes_clear {r : DirRegs} {b : Block} {n k : NodeId} (hf : r.regCopyFlag)
    (hn : r.regDirData.dirGblockBitmap n = true) (hne : n ≠ r.regCtrlMsg.reqClineNodeID) :
    ({ r with regDirData := r.regDirData.setBit n false } : DirRegs).owes b k
      + (if r.regCtrlMsg.block = b ∧ n = k then 1 else 0) = r.owes b k := by
  simp only [DirRegs.owes, DirDataE.setBit, hf, true_and]
  by_cases hk : k = n
  · subst hk
    by_cases hb : r.regCtrlMsg.block = b <;> simp [hn, hne, hb]
  · simp [Function.update_of_ne hk, Ne.symm hk]

theorem owes_clear_req {r : DirRegs} {b : Block} {k : NodeId} :
    ({ r with regDirData := r.regDirData.setBit r.regCtrlMsg.reqClineNodeID false }
      : DirRegs).owes b k = r.owes b k := by
  simp only [DirRegs.owes, DirDataE.setBit]
  by_cases hk : k = r.regCtrlMsg.reqClineNodeID
  · subst hk
    simp
  · simp [Function.update_of_ne hk]

theorem routed_clear {d n : NodeId} {r : DirRegs} (hr : r.Routed d) :
    ({ r with regDirData := r.regDirData.setBit n false } : DirRegs).Routed d := by
  intro hf
  obtain ⟨hhome, hstate, hreq⟩ := hr hf
  refine ⟨hhome, hstate, hreq.imp_left fun ⟨hm, hb⟩ => ⟨hm, ?_⟩⟩
  by_cases hn : r.regCtrlMsg.reqClineNodeID = n
  · simp [DirDataE.setBit, hn]
  · simpa [DirDataE.setBit, Function.update_of_ne hn] using hb

theorem dirCopy (h : FabricInv s) {d : NodeId} (hf : (s.dirRegs d).regCopyFlag) :
    FabricInv (s.afterDirCopy d) := by
  obtain ⟨T, hT, hk, hm⟩ := h.dirDebt d hf
  have hcopy := copyStepped (h.dirRouted d) hf hk hm
  have horder := order_isOrder T.kind
  -- it is enough to look at the registers and the message sent
  suffices hsuff : (copyStep (s.dirRegs d)).1.Routed d ∧
      ((copyStep (s.dirRegs d)).1.regCopyFlag →
        (copyStep (s.dirRegs d)).1.regCtrlMsg = (s.dirRegs d).regCtrlMsg) ∧
      (∀ f ∈ send (s.dirTicket d) (copyStep (s.dirRegs d)).2, Addable s f) ∧
      (∀ b n, (copyStep (s.dirRegs d)).1.owes b n
        + (copyStep (s.dirRegs d)).2.elim 0 (CtrlMsg.owes b n) = (s.dirRegs d).owes b n) by
    obtain ⟨hrouted, hmsg, hadd, howes⟩ := hsuff
    refine { h with toFlightsOk := ?_, dirRouted := ?_, pending := ?_, dirDebt := ?_ }
    · exact (h.toFlightsOk.change (fun _ hf => hf) (fun _ => le_rfl) hadd).same rfl rfl rfl rfl
    · intro k
      by_cases hkd : k = d
      · subst hkd
        simpa [afterDirCopy] using hrouted
      · simpa [afterDirCopy, Function.update_of_ne hkd] using h.dirRouted k
    · intro b n
      show total (Flight.owes b n) (s.flights ++ send _ _) + (s.ccRegs n).owes b
        + (Function.update s.dirRegs d (copyStep (s.dirRegs d)).1 b.nodeID).owes b n
        = if n ∈ s.missing b then 1 else 0
      rw [← h.pending b n, Fabric.pending, total_append, total_send]
      have hown := howes b n
      by_cases hbd : b.nodeID = d
      · rw [hbd, Function.update_self]
        show _ + Option.elim _ 0 (CtrlMsg.owes b n) + _ + _ = _
        omega
      · have hz : Option.elim (copyStep (s.dirRegs d)).2 0 (CtrlMsg.owes b n) = 0 := by
          have hzero : (s.dirRegs d).owes b n = 0 := by
            rw [DirRegs.owes, if_neg]
            rintro ⟨-, hblock, -⟩
            exact hbd (by rw [← hblock]; exact (h.dirRouted d hf).1)
          omega
        rw [Function.update_of_ne hbd]
        show _ + Option.elim _ 0 (CtrlMsg.owes b n) + _ + _ = _
        rw [hz]
        omega
    · intro k hflag
      by_cases hkd : k = d
      · subst hkd
        simp only [afterDirCopy, Function.update_self] at hflag ⊢
        rw [hmsg hflag]
        exact ⟨T, hT, hk, hm⟩
      · simp only [afterDirCopy, Function.update_of_ne hkd] at hflag ⊢
        exact h.dirDebt k hflag
  generalize copyStep (s.dirRegs d) = t at hcopy ⊢
  cases hcopy with
  | stop hnone =>
      refine ⟨fun hf => (by cases hf), fun hf => (by cases hf), by simp [send], fun b n => ?_⟩
      simp [DirRegs.owes, hnone n]
  | skip hn =>
      refine ⟨routed_clear (h.dirRouted d), fun _ => rfl, by simp [send], fun b n => ?_⟩
      rw [owes_clear_req]
      rfl
  | order n a hn hne =>
      refine ⟨routed_clear (h.dirRouted d), fun _ => rfl, fun f hf' => ?_, fun b k => ?_⟩
      · obtain ⟨m, hm', rfl⟩ := mem_send.mp hf'
        cases hm'
        exact ⟨.inr (.inl ⟨horder, rfl⟩), not_request_of_order horder, h.belongs_issued hT,
          fun _ _ => ⟨T, hT, .inl rfl⟩⟩
      · rw [← owes_clear hf hn hne]
        show _ + CtrlMsg.owes b k _ = _
        rw [owes_debt (.inl horder)]
        rfl

end FabricInv

end Ting
