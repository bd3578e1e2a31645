/-
# `Ting.Hls.Ledger` — what a step of the fabric does to one block

A ledger of block `b` gives a weight to every place in the fabric where something about `b`
can be: the messages in transit, the copy registers of the cache controllers, the multicast
registers of the home node, and the entry.  Its value in a state is the sum.  `BlockStep`
says what a step of the fabric does to *every* ledger of `b`, in one list of cases: the
conservation laws of the modules that follow are instances, and each of them only has to
look at the weights of the one message and the one register that the step touches.
-/
import Ting.Hls.FabricStep

namespace Ting

open Total Fabric

/-- Weights for the places that can hold something about block `b`. -/
structure Ledger (b : Block) where
  flight : Flight → ℕ
  cc : CcRegs → ℕ
  dir : DirRegs → ℕ
  entry : DirDataE → Option Txn → ℕ
  flight_local : ∀ f, f.packet.msg.block ≠ b → flight f = 0
  cc_local : ∀ r, ¬ (r.regCopyFlag ∧ r.regCtrlMsg.block = b) → cc r = 0
  dir_local : ∀ r, ¬ (r.regCopyFlag ∧ r.regCtrlMsg.block = b) → dir r = 0

namespace Ledger

variable {b : Block}

/-- Registers that a ledger leaves out. -/
theorem cc_left_out (b : Block) (r : CcRegs) :
    ¬ (r.regCopyFlag ∧ r.regCtrlMsg.block = b) → 0 = 0 :=
  fun _ => rfl

theorem dir_left_out (b : Block) (r : DirRegs) :
    ¬ (r.regCopyFlag ∧ r.regCtrlMsg.block = b) → 0 = 0 :=
  fun _ => rfl

/-- The value of a ledger in a state. -/
def value (L : Ledger b) (s : Fabric) : ℕ :=
  total L.flight s.flights + ∑ k, L.cc (s.ccRegs k) + L.dir (s.dirRegs b.nodeID) +
    L.entry (s.dir b) (s.txnOf b)

/-- What a stage sends weighs this much. -/
def sent (L : Ledger b) (k : Ticket) (out : Option CtrlMsg) : ℕ :=
  out.elim 0 fun m => L.flight ⟨.net, ⟨k, m⟩⟩

/-- Two ledgers together. -/
instance : Add (Ledger b) where
  add L K :=
    { flight := fun f => L.flight f + K.flight f
      cc := fun r => L.cc r + K.cc r
      dir := fun r => L.dir r + K.dir r
      entry := fun e T => L.entry e T + K.entry e T
      flight_local := fun f h => by rw [L.flight_local f h, K.flight_local f h]
      cc_local := fun r h => by rw [L.cc_local r h, K.cc_local r h]
      dir_local := fun r h => by rw [L.dir_local r h, K.dir_local r h] }

theorem value_add (L K : Ledger b) (s : Fabric) : (L + K).value s = L.value s + K.value s := by
  have hfl : total (L + K).flight s.flights = total L.flight s.flights + total K.flight s.flights :=
    total_add _ _ _
  have hcc : ∑ k, (L + K).cc (s.ccRegs k) = ∑ k, L.cc (s.ccRegs k) + ∑ k, K.cc (s.ccRegs k) :=
    Finset.sum_add_distrib
  unfold value
  rw [hfl, hcc]
  show _ + _ + (L.dir _ + K.dir _) + (L.entry _ _ + K.entry _ _) = _
  omega

@[simp] theorem sent_none (L : Ledger b) (k : Ticket) : L.sent k none = 0 := rfl

@[simp] theorem sent_some (L : Ledger b) (k : Ticket) (m : CtrlMsg) :
    L.sent k (some m) = L.flight ⟨.net, ⟨k, m⟩⟩ := rfl

theorem sent_local (L : Ledger b) {k : Ticket} {out : Option CtrlMsg}
    (h : ∀ m, out = some m → m.block ≠ b) : L.sent k out = 0 := by
  cases out with
  | none => rfl
  | some m => exact L.flight_local _ (h m rfl)

theorem dir_idle (L : Ledger b) {r : DirRegs} (h : r.regCopyFlag = false) : L.dir r = 0 :=
  L.dir_local _ fun hr => by rw [h] at hr; cases hr.1

theorem cc_idle (L : Ledger b) {r : CcRegs} (h : r.regCopyFlag = false) : L.cc r = 0 :=
  L.cc_local _ fun hr => by rw [h] at hr; cases hr.1

theorem total_eraseIdx (L : Ledger b) {s : Fabric} {i : ℕ} {f : Flight}
    (hf : s.flights[i]? = some f) (l : List Flight) :
    total L.flight (s.flights.eraseIdx i ++ l) + L.flight f
      = total L.flight s.flights + total L.flight l := by
  have := Total.total_eraseIdx L.flight hf
  rw [total_append]
  omega

end Ledger

/-- What a step of the fabric does to block `b`: a request is answered, or opens a
transaction; an acknowledgement is consumed; an order reaches its node and is acknowledged,
or the line is shipped; an answer reaches its node; a copy register is emptied; the multicast
goes on.  Or the step is about another block. -/
inductive BlockStep (b : Block) (s s' : Fabric) : Prop
  | elsewhere (h : ∀ L : Ledger b, L.value s' = L.value s)
  | answered (p : Packet) (e : DirDataE) (ty : RawMessageType) (hb : p.msg.block = b)
      (hin : ⟨.net, p⟩ ∈ s.flights) (hm : p.msg.mtype.isRequest) (hk : p.ticket.kind = p.msg.mtype)
      (hr : (s.dirRegs b.nodeID).regCopyFlag = false) (hans : Answers p.msg (s.dir b) e ty)
      (h : ∀ L : Ledger b, L.value s' + (L.flight ⟨.net, p⟩ + L.entry (s.dir b) (s.txnOf b))
        = L.value s + (L.flight ⟨.net, ⟨p.ticket, (latch p.msg (s.dir b)).toApp ty⟩⟩
          + L.entry e (s.txnOf b)))
  | opened (p : Packet) (t : DirTick) (hb : p.msg.block = b) (hin : ⟨.net, p⟩ ∈ s.flights)
      (hm : p.msg.mtype.isRequest) (hk : p.ticket.kind = p.msg.mtype)
      (hr : (s.dirRegs b.nodeID).regCopyFlag = false)
      (hstable : (s.dir b).state.isTransient = false)
      (htracks : (Txn.start p.ticket p.msg (s.dir b)).Tracks t.dirData)
      (hasks : (Txn.start p.ticket p.msg (s.dir b)).Asks (s.dirRegs b.nodeID) p.msg (s.dir b) t)
      (h : ∀ L : Ledger b, L.value s' + (L.flight ⟨.net, p⟩ + L.entry (s.dir b) (s.txnOf b))
        = L.value s + (L.sent p.ticket t.out + L.dir t.regs
          + L.entry t.dirData (some (.start p.ticket p.msg (s.dir b)))))
  | acked (p : Packet) (T : Txn) (t : DirTick) (hb : p.msg.block = b)
      (hin : ⟨.net, p⟩ ∈ s.flights) (hT : s.Belongs p.ticket p.msg T)
      (hm : p.msg.mtype = T.kind.ack) (htracks : T.Tracks (s.dir b))
      (ha : p.msg.agentClineNodeID ∈ T.missing) (hack : T.Acked p.msg (s.dir b) t)
      (h : ∀ L : Ledger b, L.value s' + (L.flight ⟨.net, p⟩ + L.entry (s.dir b) (some T))
        = L.value s + (L.sent p.ticket t.out + L.entry t.dirData (some (T.observe p.msg t.out))))
  | delivered (p : Packet) (T : Txn) (a : AgentId) (hb : p.msg.block = b)
      (hin : ⟨.net, p⟩ ∈ s.flights) (hT : s.Belongs p.ticket p.msg T)
      (hm : p.msg.mtype = T.kind.order) (hk : T.kind.isShared)
      (h : ∀ L : Ledger b, L.value s' + L.flight ⟨.net, p⟩
        = L.value s + (L.flight ⟨.sys p.msg.agentClineNodeID a, ⟨p.ticket, p.msg.forThread .sys⟩⟩
          + L.flight ⟨.net, ⟨p.ticket, (p.msg.forThread .sys).toHome T.kind.ack⟩⟩))
  | shipped (p : Packet) (T : Txn) (a : AgentId) (hb : p.msg.block = b)
      (hin : ⟨.net, p⟩ ∈ s.flights) (hT : s.Belongs p.ticket p.msg T)
      (hm : p.msg.mtype = T.kind.order) (hk : T.kind.isShared = false)
      (h : ∀ L : Ledger b, L.value s' + L.flight ⟨.net, p⟩
        = L.value s + (L.flight ⟨.sys p.msg.agentClineNodeID a, ⟨p.ticket, p.msg.forThread .sys⟩⟩
          + L.flight ⟨.net, ⟨p.ticket, (p.msg.forThread .sys).toRequester T.kind.grant⟩⟩
          + L.cc ⟨true, p.msg.forThread .sys⟩))
  | passed (p : Packet) (hb : p.msg.block = b) (hin : ⟨.net, p⟩ ∈ s.flights)
      (hm : p.msg.mtype.isAnswer)
      (h : ∀ L : Ledger b, L.value s' + L.flight ⟨.net, p⟩
        = L.value s + L.flight ⟨.app p.msg.reqClineNodeID p.msg.reqClineAppThreadID,
          ⟨p.ticket, p.msg.forThread .app⟩⟩)
  | shipAcked (k : Ticket) (r : CcRegs) (T : Txn) (hb : r.regCtrlMsg.block = b)
      (hf : r.regCopyFlag) (hT : s.Belongs k r.regCtrlMsg T) (hm : r.regCtrlMsg.mtype = T.kind.order)
      (hk : T.kind.isShared = false)
      (h : ∀ L : Ledger b, L.value s' + L.cc r
        = L.value s + L.flight ⟨.net, ⟨k, r.regCtrlMsg.toHome T.kind.ack⟩⟩)
  | copied (k : Ticket) (r : DirRegs) (t : DirRegs × Option CtrlMsg) (T : Txn)
      (hb : r.regCtrlMsg.block = b) (hf : r.regCopyFlag) (hT : s.Belongs k r.regCtrlMsg T)
      (hk : T.kind.isShared) (hcopy : FabricInv.CopyStepped T.kind r t)
      (h : ∀ L : Ledger b, L.value s' + L.dir r = L.value s + (L.dir t.1 + L.sent k t.2))

/-! ## Headers of what is sent -/

theorem Txn.Asks.out_header {T : Txn} {r : DirRegs} {m m' : CtrlMsg} {e : DirDataE} {t : DirTick}
    (h : T.Asks r m e t) (hm' : t.out = some m') : m'.header = m.header := by
  cases h with
  | owner hk o a ho hregs hout =>
      rw [hout] at hm'
      cases hm'
      rfl
  | sharers hk hs hm hb hregs hout =>
      rw [hout] at hm'
      split_ifs at hm'
      cases hm'
      rfl

theorem Txn.Acked.out_header {T : Txn} {m m' : CtrlMsg} {e : DirDataE} {t : DirTick}
    (h : T.Acked m e t) (hm' : t.out = some m') : m'.header = m.header := by
  cases h with
  | last hmiss hstate hbits hcons hout =>
      rw [hout] at hm'
      split_ifs at hm'
      cases hm'
      rfl
  | more hk htracks hstate hout =>
      rw [hout] at hm'
      cases hm'

theorem block_of_header {m m' : CtrlMsg} (h : m'.header = m.header) : m'.block = m.block :=
  congrArg Header.block h

namespace FabricInv

variable {s : Fabric} {b : Block}

/-- A directory tick that leaves the multicast registers alone, on a block other than `b`. -/
theorem value_dirTick_ne (L : Ledger b) {s' : Fabric} {i : ℕ} {p : Packet} {out : Option CtrlMsg}
    (hp : s.flights[i]? = some ⟨.net, p⟩) (hb : p.msg.block ≠ b)
    (hout : ∀ m, out = some m → m.header = p.msg.header)
    (hfl : s'.flights = s.flights.eraseIdx i ++ send p.ticket out) (hcc : s'.ccRegs = s.ccRegs)
    (hdir : L.dir (s'.dirRegs b.nodeID) = L.dir (s.dirRegs b.nodeID)) (he : s'.dir b = s.dir b)
    (hT : s'.txnOf b = s.txnOf b) : L.value s' = L.value s := by
  have ht := L.total_eraseIdx hp (send p.ticket out)
  have hz : L.flight ⟨.net, p⟩ = 0 := L.flight_local _ hb
  have hz' : L.sent p.ticket out = 0 :=
    L.sent_local fun m hm => by rw [block_of_header (hout m hm)]; exact hb
  rw [total_send] at ht
  change _ = _ + L.sent p.ticket out at ht
  unfold Ledger.value
  rw [hfl, hcc, hdir, he, hT]
  omega

theorem blockStep_dirTick (h : FabricInv s) {i : ℕ} {p : Packet}
    (hp : s.flights[i]? = some ⟨.net, p⟩) (hd : p.msg.mtype.toDir)
    (hr : (s.dirRegs p.msg.dstNodeId).regCopyFlag = false) :
    BlockStep b s (s.afterDirTick i p) := by
  have hmem := mem_of_getElem? hp
  obtain ⟨hdst, hroute⟩ := routed_toDir (h.routed _ hmem) hd
  have hticked := h.dirTicked hp hd hr
  rw [hdst] at hr
  generalize s.afterDirTick i p = s' at hticked
  have hcase := s.tick_case p
  have hkind : p.msg.mtype.isRequest → p.ticket.kind = p.msg.mtype := by
    intro hm
    rcases hroute with ⟨-, hk⟩ | hk
    · exact hk
    · rw [not_request_of_ack hk] at hm
      cases hm
  have hfl : ∀ L : Ledger b, total L.flight (s.flights.eraseIdx i ++ send p.ticket (s.tick p).out)
      + L.flight ⟨.net, p⟩ = total L.flight s.flights + L.sent p.ticket (s.tick p).out := by
    intro L
    have := L.total_eraseIdx hp (send p.ticket (s.tick p).out)
    rwa [total_send] at this
  cases hticked with
  | answered hm hstay =>
      obtain ⟨ty, hans, hout⟩ := hcase.answers (h.consistent _) hm hstay
      by_cases hb : p.msg.block = b
      · subst hb
        refine .answered p _ ty rfl hmem hm (hkind hm) hr hans fun L => ?_
        have hfl := hfl L
        rw [hout, Ledger.sent_some] at hfl
        simp only [Ledger.value, Function.update_self, hout]
        show _ + L.entry (s.tick p).dirData (s.txnOf p.msg.block) + _ = _
        omega
      · refine .elsewhere fun L => value_dirTick_ne L hp hb (fun m hm' => ?_) rfl rfl rfl ?_ rfl
        · rw [hout] at hm'
          cases hm'
          rfl
        · exact Function.update_of_ne (Ne.symm hb) _ _
  | opened hm hstable htrans =>
      have hfresh : s.txns p.ticket.id = none := h.fresh _ hmem rfl hm
      obtain ⟨htracks, hasks⟩ :=
        Txn.Tracks.start (h.consistent p.msg.block) hm hcase hstable htrans p.ticket
      by_cases hb : p.msg.block = b
      · subst hb
        refine .opened p (s.tick p) rfl hmem hm (hkind hm) hr hstable htracks hasks fun L => ?_
        have hfl := hfl L
        have hz : L.dir (s.dirRegs p.msg.block.nodeID) = 0 := L.dir_idle hr
        have hT := opening_txnOf_self (s := s) (i := i) (p := p)
        show total L.flight (s.flights.eraseIdx i ++ send _ _) + (∑ k, L.cc (s.ccRegs k))
          + L.dir (Function.update s.dirRegs p.msg.dirGblockNodeID (s.tick p).regs
              p.msg.dirGblockNodeID)
          + L.entry (Function.update s.dir _ _ p.msg.block) ((opening s i p).txnOf p.msg.block) + _
          = _
        rw [Function.update_self, Function.update_self, hT, Ledger.value]
        omega
      · refine .elsewhere fun L => value_dirTick_ne L hp hb (fun m hm' => hasks.out_header hm')
          rfl rfl ?_ (Function.update_of_ne (Ne.symm hb) _ _)
          (opening_txnOf_ne h hfresh (Ne.symm hb))
        by_cases hd : b.nodeID = p.msg.dirGblockNodeID
        · have hz : L.dir (s.dirRegs b.nodeID) = 0 := L.dir_idle (by rw [hd]; exact hr)
          rw [hz, hd]
          simp only [Function.update_self]
          cases hasks with
          | owner hk o a ho hregs hout => rw [hregs]; exact L.dir_idle hr
          | sharers hk hs hm' hb' hregs hout =>
              rw [hregs]
              exact L.dir_local _ fun hc => hb hc.2
        · simp only [Function.update_of_ne hd]
  | acked T hT hm htracks ha hack =>
      by_cases hb : p.msg.block = b
      · subst hb
        refine .acked p T (s.tick p) rfl hmem hT hm htracks ha hack fun L => ?_
        have hfl := hfl L
        have hT' := acking_txnOf_self (i := i) h hT
        show total L.flight (s.flights.eraseIdx i ++ send _ _) + (∑ k, L.cc (s.ccRegs k))
          + L.dir (s.dirRegs p.msg.dirGblockNodeID)
          + L.entry (Function.update s.dir _ _ p.msg.block) ((acking s i p T).txnOf p.msg.block) + _
          = _
        rw [Function.update_self, hT', Ledger.value, hT.1]
        show _ = total L.flight s.flights + (∑ k, L.cc (s.ccRegs k))
          + L.dir (s.dirRegs p.msg.dirGblockNodeID) + _ + _
        omega
      · exact .elsewhere fun L => value_dirTick_ne L hp hb (fun m hm' => hack.out_header hm')
          rfl rfl rfl (Function.update_of_ne (Ne.symm hb) _ _)
          (acking_txnOf_ne h hT (Ne.symm hb))

/-- A step that takes message `p` from the network and adds what weighs `come` concerns the
block of `p` only. -/
theorem blockStep_of_value {s' : Fabric} {p : Packet} (come : Ledger b → ℕ)
    (hcome : p.msg.block ≠ b → ∀ L, come L = 0)
    (hval : ∀ L : Ledger b, L.value s' + L.flight ⟨.net, p⟩ = L.value s + come L)
    (hstep : p.msg.block = b →
      (∀ L : Ledger b, L.value s' + L.flight ⟨.net, p⟩ = L.value s + come L) → BlockStep b s s') :
    BlockStep b s s' := by
  by_cases hb : p.msg.block = b
  · exact hstep hb hval
  · refine .elsewhere fun L => ?_
    have := hval L
    rwa [L.flight_local _ hb, hcome hb] at this

theorem blockStep_ccTick (h : FabricInv s) {qNum i : ℕ} {p : Packet}
    (hp : s.flights[i]? = some ⟨.net, p⟩) (hd : p.msg.mtype.toDir = false)
    (hr : (s.ccRegs p.msg.dstNodeId).regCopyFlag = false) :
    BlockStep b s (s.afterCcTick qNum i p) := by
  have hmem := mem_of_getElem? hp
  have hroute := h.routed _ hmem
  have hticked : FabricInv.CcTicked qNum s i p (s.afterCcTick qNum i p) := h.ccTicked hp hd hr
  generalize s.afterCcTick qNum i p = s' at hticked
  cases hticked with
  | acked T hT hm hk =>
      set a := (sysQueue qNum (s.regQId p.msg.agentClineNodeID)).1
      refine blockStep_of_value (p := p) (fun L =>
        L.flight ⟨.sys p.msg.agentClineNodeID a, ⟨p.ticket, p.msg.forThread .sys⟩⟩
          + L.flight ⟨.net, ⟨p.ticket, (p.msg.forThread .sys).toHome T.kind.ack⟩⟩)
        (fun hb L => ?_) (fun L => ?_) fun hb hval => .delivered p T a hb hmem hT hm hk hval
      · rw [L.flight_local _ hb, L.flight_local _ hb]
      · have hfl := L.total_eraseIdx hp [⟨.sys p.msg.agentClineNodeID a,
          ⟨p.ticket, p.msg.forThread .sys⟩⟩,
          ⟨.net, ⟨p.ticket, (p.msg.forThread .sys).toHome T.kind.ack⟩⟩]
        simp only [total_cons, total_nil, add_zero] at hfl
        show total L.flight (s.flights.eraseIdx i ++ [_, _]) + (∑ k, L.cc (s.ccRegs k))
          + L.dir (s.dirRegs b.nodeID) + L.entry (s.dir b) (s.txnOf b) + _ = _
        unfold Ledger.value
        omega
  | shipped T hT hm hk =>
      set a := (sysQueue qNum (s.regQId p.msg.agentClineNodeID)).1
      have hdst : p.msg.dstNodeId = p.msg.agentClineNodeID := by
        rcases routed_toCc hroute hd with ⟨-, hdst⟩ | ⟨hans, -⟩
        · exact hdst
        · rw [hm] at hans
          cases hkind : T.kind <;> rw [hkind] at hans <;> cases hans
      rw [hdst] at hr
      refine blockStep_of_value (p := p) (fun L =>
        L.flight ⟨.sys p.msg.agentClineNodeID a, ⟨p.ticket, p.msg.forThread .sys⟩⟩
          + L.flight ⟨.net, ⟨p.ticket, (p.msg.forThread .sys).toRequester T.kind.grant⟩⟩
          + L.cc ⟨true, p.msg.forThread .sys⟩)
        (fun hb L => ?_) (fun L => ?_) fun hb hval => .shipped p T a hb hmem hT hm hk hval
      · rw [L.flight_local _ hb, L.flight_local _ hb, L.cc_local _ fun hc => hb hc.2]
      · have hfl := L.total_eraseIdx hp [⟨.sys p.msg.agentClineNodeID a,
          ⟨p.ticket, p.msg.forThread .sys⟩⟩,
          ⟨.net, ⟨p.ticket, (p.msg.forThread .sys).toRequester T.kind.grant⟩⟩]
        have hcc := sum_update (fun _ r => L.cc r) s.ccRegs p.msg.agentClineNodeID
          (⟨true, p.msg.forThread .sys⟩ : CcRegs)
        have hz := L.cc_idle hr
        simp only [total_cons, total_nil, add_zero] at hfl
        show total L.flight (s.flights.eraseIdx i ++ [_, _])
          + (∑ k, L.cc (Function.update s.ccRegs p.msg.agentClineNodeID
              (⟨true, p.msg.forThread .sys⟩ : CcRegs) k))
          + L.dir (s.dirRegs b.nodeID) + L.entry (s.dir b) (s.txnOf b) + _ = _
        unfold Ledger.value
        omega
  | answered hm =>
      refine blockStep_of_value (p := p) (fun L =>
        L.flight ⟨.app p.msg.reqClineNodeID p.msg.reqClineAppThreadID,
          ⟨p.ticket, p.msg.forThread .app⟩⟩)
        (fun hb L => L.flight_local _ hb) (fun L => ?_) fun hb hval => .passed p hb hmem hm hval
      have hfl := L.total_eraseIdx hp [⟨.app p.msg.reqClineNodeID p.msg.reqClineAppThreadID,
        ⟨p.ticket, p.msg.forThread .app⟩⟩]
      simp only [total_cons, total_nil, add_zero] at hfl
      show total L.flight (s.flights.eraseIdx i ++ [_]) + (∑ k, L.cc (s.ccRegs k))
        + L.dir (s.dirRegs b.nodeID) + L.entry (s.dir b) (s.txnOf b) + _ = _
      unfold Ledger.value
      omega

theorem blockStep_ccCopy (h : FabricInv s) {n : NodeId} (hf : (s.ccRegs n).regCopyFlag) :
    BlockStep b s (s.afterCcCopy n) := by
  obtain ⟨T, hT, hm⟩ := h.ccDebt n hf
  have hcopy := cacheCtrlCopy_eq (h.ccRouted n) hf hm
  have hk : T.kind.isShared = false := by
    rcases ((h.ccRouted n) hf).2 with hq | hq <;> rw [hq] at hm <;> cases hkind : T.kind <;>
      rw [hkind] at hm <;> first | rfl | cases hm
  have hval : ∀ L : Ledger b, L.value (s.afterCcCopy n) + L.cc (s.ccRegs n) = L.value s
      + L.flight ⟨.net, ⟨s.ccTicket n, (s.ccRegs n).regCtrlMsg.toHome T.kind.ack⟩⟩ := by
    intro L
    have hcc := sum_update (fun _ r => L.cc r) s.ccRegs n
      ({ s.ccRegs n with regCopyFlag := false } : CcRegs)
    have hz : L.cc { s.ccRegs n with regCopyFlag := false } = 0 := L.cc_idle rfl
    simp only [Ledger.value, afterCcCopy, hcopy, total_append, total_send, Option.elim_some]
    show _ + (∑ k, L.cc (Function.update s.ccRegs n
        ({ s.ccRegs n with regCopyFlag := false } : CcRegs) k))
      + L.dir (s.dirRegs b.nodeID) + L.entry (s.dir b) (s.txnOf b) + _ = _
    omega
  by_cases hb : (s.ccRegs n).regCtrlMsg.block = b
  · exact .shipAcked _ _ T hb hf hT hm hk hval
  · refine .elsewhere fun L => ?_
    have := hval L
    rwa [L.cc_local _ fun hc => hb hc.2, L.flight_local _ hb] at this

theorem CopyStepped.out_header {k : TxnKind} {r : DirRegs} {t : DirRegs × Option CtrlMsg}
    (h : CopyStepped k r t) {m : CtrlMsg} (hm : t.2 = some m) :
    m.header = r.regCtrlMsg.header := by
  cases h with
  | stop hnone => cases hm
  | skip hn => cases hm
  | order n a hn hne =>
      cases hm
      rfl

theorem CopyStepped.msg {k : TxnKind} {r : DirRegs} {t : DirRegs × Option CtrlMsg}
    (h : CopyStepped k r t) : t.1.regCtrlMsg = r.regCtrlMsg := by
  cases h <;> rfl

theorem blockStep_dirCopy (h : FabricInv s) {d : NodeId} (hf : (s.dirRegs d).regCopyFlag) :
    BlockStep b s (s.afterDirCopy d) := by
  obtain ⟨T, hT, hk, hm⟩ := h.dirDebt d hf
  have hcopy := copyStepped (h.dirRouted d) hf hk hm
  have hhome : (s.dirRegs d).regCtrlMsg.block.nodeID = d := ((h.dirRouted d) hf).1
  have hfl : ∀ L : Ledger b, total L.flight (s.afterDirCopy d).flights
      = total L.flight s.flights + L.sent (s.dirTicket d) (copyStep (s.dirRegs d)).2 := by
    intro L
    simp only [afterDirCopy, total_append, total_send]
    rfl
  by_cases hb : (s.dirRegs d).regCtrlMsg.block = b
  · refine .copied _ _ _ T hb hf hT hk hcopy fun L => ?_
    have hfl := hfl L
    have hd : b.nodeID = d := by rw [← hb]; exact hhome
    simp only [Ledger.value, hfl, hd]
    simp only [afterDirCopy, Function.update_self]
    show _ + (∑ k, L.cc (s.ccRegs k)) + _ + L.entry (s.dir b) (s.txnOf b) + _ = _
    omega
  · refine .elsewhere fun L => ?_
    have hfl := hfl L
    have hz : L.sent (s.dirTicket d) (copyStep (s.dirRegs d)).2 = 0 :=
      L.sent_local fun m hm' => by rw [block_of_header (hcopy.out_header hm')]; exact hb
    have hd : L.dir ((s.afterDirCopy d).dirRegs b.nodeID) = L.dir (s.dirRegs b.nodeID) := by
      by_cases hd : b.nodeID = d
      · subst hd
        rw [L.dir_local (s.dirRegs _) fun hc => hb hc.2]
        simp only [afterDirCopy, Function.update_self]
        exact L.dir_local _ fun hc => hb (hcopy.msg ▸ hc.2)
      · simp only [afterDirCopy, Function.update_of_ne hd]
    unfold Ledger.value
    rw [hfl, hz, hd]
    rfl

end FabricInv

/-- The actions of the fabric itself; the others are those of the hosts. -/
def FabricAction.isInternal : FabricAction → Bool
  | inject _ | pop _ => false
  | _ => true

/-- Every internal step is one of the cases, for every block. -/
theorem FabricInv.blockStep {s s' : Fabric} {qNum : ℕ} {a : FabricAction} (h : FabricInv s)
    (ha : a.isInternal) (hs : Fabric.step qNum a s = some s') (b : Block) : BlockStep b s s' := by
  cases Stepped.of_step hs with
  | inject m hm => cases ha
  | dirTick i p hp hd hr => exact h.blockStep_dirTick hp hd hr
  | dirCopy d hr => exact h.blockStep_dirCopy hr
  | ccTick i p hp hd hr => exact h.blockStep_ccTick hp hd hr
  | ccCopy n hr => exact h.blockStep_ccCopy hr
  | pop loc i p hl hp hi => cases ha

/-- A request that enters adds its own weight. -/
theorem Ledger.value_inject {b : Block} (L : Ledger b) (s : Fabric) (m : CtrlMsg) :
    L.value (s.afterInject m)
      = L.value s + L.flight ⟨.net, ⟨⟨s.nextId, m.mtype⟩, cacheCtrlToNet m⟩⟩ := by
  simp only [Ledger.value, afterInject, total_append, total_cons, total_nil]
  show _ + (∑ k, L.cc (s.ccRegs k)) + L.dir (s.dirRegs b.nodeID) + L.entry (s.dir b) (s.txnOf b) = _
  omega

/-- A message that a host takes takes its weight along. -/
theorem Ledger.value_pop {b : Block} (L : Ledger b) {s : Fabric} {i : ℕ} {f : Flight}
    (hf : s.flights[i]? = some f) : L.value (s.afterPop i) + L.flight f = L.value s := by
  have := Total.total_eraseIdx L.flight hf
  show total L.flight (s.flights.eraseIdx i) + (∑ k, L.cc (s.ccRegs k))
    + L.dir (s.dirRegs b.nodeID) + L.entry (s.dir b) (s.txnOf b) + _ = _
  unfold Ledger.value
  omega

/-- At the start only the entry can weigh anything. -/
theorem Ledger.value_init {b : Block} (L : Ledger b) {s : Fabric} (h : s.Init) :
    L.value s = L.entry (s.dir b) none := by
  have hcc : ∑ k, L.cc (s.ccRegs k) = 0 :=
    Finset.sum_eq_zero fun k _ => L.cc_idle (h.ccRegs k)
  have hT : s.txnOf b = none := by
    rw [txnOf, h.current b]
    rfl
  unfold Ledger.value
  rw [h.flights, hcc, L.dir_idle (h.dirRegs _), hT, total_nil]
  omega

end Ting
