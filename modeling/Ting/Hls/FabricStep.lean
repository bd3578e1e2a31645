/-
# `Ting.Hls.FabricStep` — directory ticks keep the invariant

The three shapes of a directory tick, each with what it does to the debts of the block it
works on: a request that is answered at once leaves them alone, one that opens a transaction
contracts one for every target, and an acknowledgement settles one.
-/
import Ting.Hls.FabricInv

namespace Ting

namespace FabricInv

open Fabric Total

variable {s : Fabric} {i : ℕ} {p : Packet}

/-! ## Requests answered at once -/

theorem answered (h : FabricInv s) (hp : s.flights[i]? = some ⟨.net, p⟩)
    (hm : p.msg.mtype.isRequest)
    (hstay : (s.tick p).dirData.state.isTransient = (s.dir p.msg.block).state.isTransient) :
    FabricInv { s with
      dir := Function.update s.dir p.msg.block (s.tick p).dirData
      flights := s.flights.eraseIdx i ++ send p.ticket (s.tick p).out } := by
  have hcase := s.tick_case p
  obtain ⟨hcons, hsame, -⟩ := (h.consistent p.msg.block).request hm hcase hstay
  obtain ⟨ty, hty, -, hout⟩ := hcase.answer hm hstay
  have hissued := h.issued _ (mem_of_getElem? hp)
  have htrans : ∀ b, (Function.update s.dir p.msg.block (s.tick p).dirData b).state.isTransient
      = (s.dir b).state.isTransient := by
    intro b
    by_cases hb : b = p.msg.block
    · subst hb
      rw [Function.update_self, hstay]
    · rw [Function.update_of_ne hb]
  -- a pending transaction finds its entry untouched
  have hcarry : ∀ k m, Carries s { s with
      dir := Function.update s.dir p.msg.block (s.tick p).dirData
      flights := s.flights.eraseIdx i ++ send p.ticket (s.tick p).out } k m := by
    intro k m T hT
    refine ⟨T, ⟨hT.1, ?_, hT.2.2⟩, rfl⟩
    show (Function.update s.dir p.msg.block (s.tick p).dirData m.block).state = T.kind.state
    by_cases hb : m.block = p.msg.block
    · have ht : (s.dir p.msg.block).state.isTransient := by
        rw [← hb, hT.2.1]
        exact TxnKind.state_isTransient _
      rw [hb, Function.update_self, hsame ht, ← hb]
      exact hT.2.1
    · rw [Function.update_of_ne hb]
      exact hT.2.1
  refine { h with
    toFlightsOk := ?_, consistent := ?_, pending := ?_, ccDebt := ?_, dirDebt := ?_, settled := ?_ }
  · refine (h.toFlightsOk.erase hp fun f hf => ?_).transfer (fun _ _ _ _ hn => hn) le_rfl
      fun f _ _ _ => hcarry _ _
    obtain ⟨m, hm', rfl⟩ := mem_send.mp hf
    rw [hout] at hm'
    cases hm'
    exact .answer hty hissued (.inr (.inr (.inr ⟨hty, rfl⟩)))
  · intro b
    show (Function.update s.dir p.msg.block (s.tick p).dirData b).Consistent (s.txnOf b)
    by_cases hb : b = p.msg.block
    · subst hb
      rw [Function.update_self]
      exact hcons
    · rw [Function.update_of_ne hb]
      exact h.consistent b
  · intro b n
    have hmiss : Fabric.missing { s with
        dir := Function.update s.dir p.msg.block (s.tick p).dirData
        flights := s.flights.eraseIdx i ++ send p.ticket (s.tick p).out } b = s.missing b := by
      simp only [Fabric.missing, htrans b]
      rfl
    rw [hmiss, ← h.pending b n]
    show total (Flight.owes b n) (s.flights.eraseIdx i ++ send _ _) + (s.ccRegs n).owes b
      + (s.dirRegs b.nodeID).owes b n = _
    rw [Fabric.pending, ← total_eraseIdx (Flight.owes b n) hp, total_append, total_send, hout]
    have hin : (⟨.net, p⟩ : Flight).owes b n = 0 := by
      simp only [Flight.owes, if_true]
      exact owes_of_not_debt (not_debt_of_request hm)
    have hz : CtrlMsg.owes b n ((latch p.msg (s.dir p.msg.block)).toApp ty) = 0 :=
      owes_of_not_debt (not_debt_of_answer hty)
    show _ + CtrlMsg.owes b n _ + _ + _ = _
    rw [hin, hz]
    omega
  · intro n hflag
    obtain ⟨T, hT, hk⟩ := h.ccDebt n hflag
    obtain ⟨T', hT', hkind⟩ := hcarry _ _ T hT
    exact ⟨T', hT', hkind ▸ hk⟩
  · intro d hflag
    obtain ⟨T, hT, hk⟩ := h.dirDebt d hflag
    obtain ⟨T', hT', hkind⟩ := hcarry _ _ T hT
    exact ⟨T', hT', hkind ▸ hk⟩
  · intro j T hT
    rcases h.settled j T hT with ⟨hcur, ht⟩ | hcomplete
    · exact .inl ⟨hcur, by rw [htrans]; exact ht⟩
    · exact .inr hcomplete

/-! ## Requests that open a transaction -/

/-- The state after a request opened a transaction. -/
def opening (s : Fabric) (i : ℕ) (p : Packet) : Fabric :=
  { s with
    dir := Function.update s.dir p.msg.block (s.tick p).dirData
    dirRegs := Function.update s.dirRegs p.msg.dirGblockNodeID (s.tick p).regs
    dirTicket := Function.update s.dirTicket p.msg.dirGblockNodeID
      (if (s.tick p).regs.regCopyFlag then p.ticket else s.dirTicket p.msg.dirGblockNodeID)
    txns := Function.update s.txns p.ticket.id
      (some (.start p.ticket p.msg (s.dir p.msg.block)))
    current := Function.update s.current p.msg.block (some p.ticket.id)
    flights := s.flights.eraseIdx i ++ send p.ticket (s.tick p).out }

theorem opening_txnOf_self : (opening s i p).txnOf p.msg.block
    = some (.start p.ticket p.msg (s.dir p.msg.block)) := by
  simp [txnOf, opening]

theorem opening_txnOf_ne (h : FabricInv s) (hfresh : s.txns p.ticket.id = none) {b : Block}
    (hb : b ≠ p.msg.block) : (opening s i p).txnOf b = s.txnOf b := by
  simp only [txnOf, opening, Function.update_of_ne hb]
  cases hc : s.current b with
  | none => rfl
  | some j =>
      obtain ⟨T, hT, -⟩ := h.current b j hc
      have hj : j ≠ p.ticket.id := by
        rintro rfl
        rw [hfresh] at hT
        cases hT
      simp [Function.update_of_ne hj]

/-- No debt was about on a block with a stable entry, so all debts stay as they are. -/
theorem opening_carries (h : FabricInv s) (hfresh : s.txns p.ticket.id = none)
    (hstable : (s.dir p.msg.block).state.isTransient = false) (k : Ticket) (m : CtrlMsg) :
    Carries s (opening s i p) k m := by
  intro T hT
  have hb : m.block ≠ p.msg.block := by
    intro hb
    have := TxnKind.state_isTransient T.kind
    rw [← hT.2.1, hb, hstable] at this
    cases this
  refine ⟨T, ⟨?_, ?_, hT.2.2⟩, rfl⟩
  · rw [opening_txnOf_ne h hfresh hb]
    exact hT.1
  · simp only [opening, Function.update_of_ne hb]
    exact hT.2.1

theorem opening_missing_ne (h : FabricInv s) (hfresh : s.txns p.ticket.id = none) {b : Block}
    (hb : b ≠ p.msg.block) : (opening s i p).missing b = s.missing b := by
  unfold Fabric.missing
  rw [opening_txnOf_ne h hfresh hb]
  simp only [opening, Function.update_of_ne hb]

theorem opening_missing_self (htrans : (s.tick p).dirData.state.isTransient) :
    (opening s i p).missing p.msg.block
      = (Txn.start p.ticket p.msg (s.dir p.msg.block)).missing := by
  unfold Fabric.missing
  rw [opening_txnOf_self]
  simp only [opening, Function.update_self, htrans, if_true]
  rfl

theorem missing_of_stable {b : Block} (hstable : (s.dir b).state.isTransient = false) :
    s.missing b = ∅ := by
  simp [Fabric.missing, hstable]

/-- Opening a transaction contracts one debt for each of its targets, in the registers or as
one order on the network. -/
theorem opening_owes {T : Txn} {r : DirRegs} {m : CtrlMsg} {e : DirDataE} {t : DirTick}
    (hasks : T.Asks r m e t) (hT : T = .start p.ticket m e) (hr : r.regCopyFlag = false)
    (b : Block) (n : NodeId) :
    t.out.elim 0 (CtrlMsg.owes b n) + t.regs.owes b n
      = if b = m.block ∧ n ∈ T.missing then 1 else 0 := by
  have hmiss : T.missing = T.targets := by
    rw [hT, Txn.start_missing]
    rfl
  cases hasks with
  | owner hk o a ho hregs hout =>
      have hz : r.owes b n = 0 := by simp [DirRegs.owes, hr]
      rw [hout, hregs, hz, hmiss, ho]
      show CtrlMsg.owes b n _ + 0 = _
      rw [owes_debt (.inl (order_isOrder T.kind))]
      show (if m.block = b ∧ o = n then 1 else 0) + 0 = _
      simp only [Finset.mem_singleton, eq_comm, add_zero]
  | sharers hk hs hm hb hregs hout =>
      have hz : t.out.elim 0 (CtrlMsg.owes b n) = 0 := by
        rw [hout]
        split_ifs
        · exact owes_of_not_debt (not_debt_of_answer rfl)
        · rfl
      have hin : n ∈ T.missing ↔ n ≠ m.reqClineNodeID ∧ e.dirGblockBitmap n = true := by
        rw [hT, Txn.start_missing, Finset.mem_erase, DirDataE.mem_bits]
      rw [hz, hregs, zero_add]
      simp only [DirRegs.owes, true_and, hin]
      show (if m.block = b ∧ _ ∧ n ≠ m.reqClineNodeID then 1 else 0) = _
      by_cases hb : b = m.block
      · subst hb
        by_cases hn : n = m.reqClineNodeID <;> simp [hn]
      · simp [hb, Ne.symm hb]

theorem opened (h : FabricInv s) (hp : s.flights[i]? = some ⟨.net, p⟩)
    (hm : p.msg.mtype.isRequest)
    (hr : (s.dirRegs p.msg.dirGblockNodeID).regCopyFlag = false)
    (hstable : (s.dir p.msg.block).state.isTransient = false)
    (htrans : (s.tick p).dirData.state.isTransient) : FabricInv (opening s i p) := by
  have hmem := mem_of_getElem? hp
  have hfresh : s.txns p.ticket.id = none := h.fresh _ hmem rfl hm
  have hissued : p.ticket.id < s.nextId := h.issued _ hmem
  obtain ⟨htracks, hasks⟩ :=
    (Txn.Tracks.start (h.consistent p.msg.block) hm (s.tick_case p) hstable htrans p.ticket)
  have hcarry := opening_carries (i := i) h hfresh hstable
  have hbel : ∀ m : CtrlMsg, m.header = p.msg.header → (opening s i p).Belongs p.ticket m
      (.start p.ticket p.msg (s.dir p.msg.block)) := by
    intro m hh
    have hb : m.block = p.msg.block := congrArg Header.block hh
    refine ⟨by rw [hb, opening_txnOf_self], ?_, rfl, hh.symm⟩
    rw [hb]
    simp only [opening, Function.update_self]
    exact htracks.state
  have hother : ∀ f ∈ s.flights.eraseIdx i, f.loc = .net → f.packet.msg.mtype.isRequest →
      f.packet.ticket.id ≠ p.ticket.id := by
    intro f hf hnet hq heq
    have hle := le_total (f := Flight.requests p.ticket.id) hf
    have htot := total_eraseIdx (Flight.requests p.ticket.id) hp
    have hone : (⟨.net, p⟩ : Flight).requests p.ticket.id = 1 := by simp [Flight.requests, hm]
    have hf1 : f.requests p.ticket.id = 1 := by simp [Flight.requests, hnet, hq, heq]
    have := h.unique p.ticket.id
    omega
  refine
    { toFlightsOk := ?_, ccRouted := h.ccRouted, dirRouted := ?_, recorded := ?_, current := ?_
      consistent := ?_, pending := ?_, ccDebt := ?_, dirDebt := ?_, settled := ?_ }
  · have hrest : FlightsOk (opening s i p) (s.flights.eraseIdx i) := by
      have := h.toFlightsOk.erase (l := []) hp (by simp)
      rw [List.append_nil] at this
      refine this.transfer (fun f hf hnet hq hn => ?_) le_rfl fun f _ _ _ => hcarry _ _
      simp only [opening, Function.update_of_ne (hother f hf hnet hq)]
      exact hn
    refine hrest.change (fun _ hf => hf) (fun _ => le_rfl) fun f hf => ?_
    obtain ⟨m, hout', rfl⟩ := mem_send.mp hf
    cases hasks with
    | owner hk o a ho hregs hout =>
        rw [hout] at hout'
        cases hout'
        have horder := order_isOrder (Txn.start p.ticket p.msg (s.dir p.msg.block)).kind
        exact ⟨.inr (.inl ⟨horder, rfl⟩), not_request_of_order horder, hissued,
          fun _ _ => ⟨_, hbel _ rfl, .inl rfl⟩⟩
    | sharers hk hs hm' hb hregs hout =>
        rw [hout] at hout'
        split_ifs at hout'
        cases hout'
        exact .answer rfl hissued (.inr (.inr (.inr ⟨rfl, rfl⟩)))
  · intro d
    by_cases hd : d = p.msg.dirGblockNodeID
    · subst hd
      simp only [opening, Function.update_self]
      cases hasks with
      | owner hk o a ho hregs hout => rw [hregs]; exact h.dirRouted _
      | sharers hk hs hm' hb hregs hout =>
          rw [hregs]
          intro _
          refine ⟨rfl, hs, ?_⟩
          by_cases hkind : (Txn.start p.ticket p.msg (s.dir p.msg.block)).kind = .writeMissShared
          · rw [if_pos hkind] at hm'
            exact .inl ⟨hm', hb hkind⟩
          · rw [if_neg hkind] at hm'
            exact .inr hm'
    · simp only [opening, Function.update_of_ne hd]
      exact h.dirRouted d
  · intro j T hT
    by_cases hj : j = p.ticket.id
    · subst hj
      simp only [opening, Function.update_self, Option.some.injEq] at hT
      subst hT
      exact ⟨rfl, hissued⟩
    · simp only [opening, Function.update_of_ne hj] at hT
      exact h.recorded j T hT
  · intro b j hc
    by_cases hb : b = p.msg.block
    · subst hb
      simp only [opening, Function.update_self, Option.some.injEq] at hc
      subst hc
      exact ⟨.start p.ticket p.msg (s.dir p.msg.block),
        by simp only [opening, Function.update_self], rfl⟩
    · simp only [opening, Function.update_of_ne hb] at hc
      obtain ⟨T, hT, hblock⟩ := h.current b j hc
      have hj : j ≠ p.ticket.id := by
        rintro rfl
        rw [hfresh] at hT
        cases hT
      exact ⟨T, by simp only [opening, Function.update_of_ne hj]; exact hT, hblock⟩
  · intro b
    by_cases hb : b = p.msg.block
    · subst hb
      rw [opening_txnOf_self]
      simp only [opening, Function.update_self]
      exact .of_tracks htracks
    · rw [opening_txnOf_ne h hfresh hb]
      simp only [opening, Function.update_of_ne hb]
      exact h.consistent b
  · intro b n
    have howes := opening_owes hasks rfl hr b n
    have hin : (⟨.net, p⟩ : Flight).owes b n = 0 := by
      simp only [Flight.owes, if_true]
      exact owes_of_not_debt (not_debt_of_request hm)
    have hpend := h.pending b n
    rw [Fabric.pending, ← total_eraseIdx (Flight.owes b n) hp, hin] at hpend
    show total (Flight.owes b n) (s.flights.eraseIdx i ++ send _ _) + (s.ccRegs n).owes b
      + (Function.update s.dirRegs p.msg.dirGblockNodeID (s.tick p).regs b.nodeID).owes b n = _
    rw [total_append, total_send]
    show _ + Option.elim _ 0 (CtrlMsg.owes b n) + _ + _ = _
    by_cases hb : b = p.msg.block
    · have hz : (s.dirRegs b.nodeID).owes b n = 0 := by
        rw [hb]
        simp only [DirRegs.owes]
        rw [if_neg]
        rintro ⟨hf, -⟩
        rw [show p.msg.block.nodeID = p.msg.dirGblockNodeID from rfl, hr] at hf
        cases hf
      rw [hb] at hpend howes hz ⊢
      rw [missing_of_stable hstable, if_neg (Finset.notMem_empty n)] at hpend
      rw [opening_missing_self htrans, show p.msg.block.nodeID = p.msg.dirGblockNodeID from rfl,
        Function.update_self]
      simp only [true_and] at howes
      omega
    · simp only [hb, false_and, if_false] at howes
      rw [opening_missing_ne h hfresh hb, ← hpend]
      by_cases hd : b.nodeID = p.msg.dirGblockNodeID
      · have hz : (s.dirRegs b.nodeID).owes b n = 0 := by
          rw [DirRegs.owes, if_neg]
          rintro ⟨hf, -⟩
          rw [hd, hr] at hf
          cases hf
        rw [hd, Function.update_self, ← hd]
        omega
      · rw [Function.update_of_ne hd]
        omega
  · intro n hflag
    obtain ⟨T, hT, hk⟩ := h.ccDebt n hflag
    obtain ⟨T', hT', hkind⟩ := hcarry _ _ T hT
    exact ⟨T', hT', hkind ▸ hk⟩
  · intro d hflag
    by_cases hd : d = p.msg.dirGblockNodeID
    · subst hd
      simp only [opening, Function.update_self] at hflag
      have hregs' : (opening s i p).dirRegs p.msg.dirGblockNodeID = (s.tick p).regs := by
        simp only [opening, Function.update_self]
      have hticket : (opening s i p).dirTicket p.msg.dirGblockNodeID = p.ticket := by
        simp only [opening, Function.update_self, hflag, if_true]
      rw [hregs', hticket]
      cases hasks with
      | owner hk o a ho hregs hout =>
          rw [hregs, hr] at hflag
          cases hflag
      | sharers hk hs hm' hb hregs hout =>
          rw [hregs]
          exact ⟨_, hbel (latch p.msg _) rfl, hk, hm'⟩
    · have hregs' : (opening s i p).dirRegs d = s.dirRegs d := by
        simp only [opening, Function.update_of_ne hd]
      have hticket : (opening s i p).dirTicket d = s.dirTicket d := by
        simp only [opening, Function.update_of_ne hd]
      rw [hregs'] at hflag
      rw [hregs', hticket]
      obtain ⟨T, hT, hk⟩ := h.dirDebt d hflag
      obtain ⟨T', hT', hkind⟩ := hcarry _ _ T hT
      exact ⟨T', hT', hkind ▸ hk⟩
  · intro j T hT
    by_cases hj : j = p.ticket.id
    · subst hj
      simp only [opening, Function.update_self, Option.some.injEq] at hT
      subst hT
      refine .inl ⟨?_, ?_⟩
      · show Function.update s.current p.msg.block (some p.ticket.id) p.msg.block = _
        rw [Function.update_self]
      · show (Function.update s.dir p.msg.block _ p.msg.block).state.isTransient
        rw [Function.update_self]
        exact htrans
    · simp only [opening, Function.update_of_ne hj] at hT
      rcases h.settled j T hT with ⟨hcur, ht⟩ | hcomplete
      · have hb : T.header.block ≠ p.msg.block := by
          intro hb
          rw [hb, hstable] at ht
          cases ht
        refine .inl ⟨?_, ?_⟩ <;> simp only [opening, Function.update_of_ne hb]
        · exact hcur
        · exact ht
      · exact .inr hcomplete

/-! ## Acknowledgements -/

/-- The state after an acknowledgement of transaction `T` was consumed. -/
def acking (s : Fabric) (i : ℕ) (p : Packet) (T : Txn) : Fabric :=
  { s with
    dir := Function.update s.dir p.msg.block (s.tick p).dirData
    txns := Function.update s.txns p.ticket.id (some (T.observe p.msg (s.tick p).out))
    flights := s.flights.eraseIdx i ++ send p.ticket (s.tick p).out }

/-- The record of a transaction is found under its ticket, and the block's pointer is there. -/
theorem belongs_current (h : FabricInv s) {k : Ticket} {m : CtrlMsg} {T : Txn}
    (hT : s.Belongs k m T) : s.current m.block = some k.id ∧ s.txns k.id = some T := by
  obtain ⟨j, hj, hTj⟩ := Option.bind_eq_some_iff.mp hT.1
  have hid : j = k.id := by rw [← (h.recorded j T hTj).1, hT.2.2.1]
  subst hid
  exact ⟨hj, hTj⟩

section Acking

variable {T : Txn}

theorem acking_txnOf_self (h : FabricInv s) (hT : s.Belongs p.ticket p.msg T) :
    (acking s i p T).txnOf p.msg.block = some (T.observe p.msg (s.tick p).out) := by
  simp [txnOf, acking, (h.belongs_current hT).1]

theorem acking_txnOf_ne (h : FabricInv s) (hT : s.Belongs p.ticket p.msg T) {b : Block}
    (hb : b ≠ p.msg.block) : (acking s i p T).txnOf b = s.txnOf b := by
  simp only [txnOf, acking]
  cases hc : s.current b with
  | none => rfl
  | some j =>
      obtain ⟨T', hT', hblock⟩ := h.current b j hc
      have hj : j ≠ p.ticket.id := by
        rintro rfl
        rw [(h.belongs_current hT).2] at hT'
        cases hT'
        exact hb (by rw [← hblock, hT.2.2.2]; rfl)
      simp [Function.update_of_ne hj]

theorem acking_missing_ne (h : FabricInv s) (hT : s.Belongs p.ticket p.msg T) {b : Block}
    (hb : b ≠ p.msg.block) : (acking s i p T).missing b = s.missing b := by
  unfold Fabric.missing
  rw [acking_txnOf_ne h hT hb]
  simp only [acking, Function.update_of_ne hb]

/-- An acknowledgement settles its debt and no other. -/
theorem acking_missing_self (h : FabricInv s) (hT : s.Belongs p.ticket p.msg T)
    (hm : p.msg.mtype = T.kind.ack)
    (hack : T.Acked p.msg (s.dir p.msg.block) (s.tick p)) :
    (acking s i p T).missing p.msg.block
      = (s.missing p.msg.block).erase p.msg.agentClineNodeID := by
  have hmiss := (h.tracks hT).2
  unfold Fabric.missing at hmiss ⊢
  rw [hmiss, acking_txnOf_self h hT]
  cases hack with
  | last hlast hstate hbits hcons hout =>
      have hstable : (s.tick p).dirData.state.isTransient = false := by
        rw [hstate]
        split_ifs <;> rfl
      simp only [acking, Function.update_self, hstable, Bool.false_eq_true, if_false, hlast]
      exact (Finset.erase_singleton _).symm
  | more hk htracks hstate hout =>
      have htrans : (s.tick p).dirData.state.isTransient := by
        rw [htracks.state]
        exact TxnKind.state_isTransient _
      simp only [acking, Function.update_self, htrans, if_true]
      exact Txn.missing_observe (hm ▸ TxnKind.ack_isAgent2Dir T.kind) _

/-- What an acknowledgement releases is no debt. -/
theorem Acked.out_owes {m : CtrlMsg} {e : DirDataE} {t : DirTick} (hack : T.Acked m e t)
    (b : Block) (n : NodeId) : t.out.elim 0 (CtrlMsg.owes b n) = 0 := by
  cases hack with
  | last hlast hstate hbits hcons hout =>
      rw [hout]
      split_ifs
      · exact owes_of_not_debt (not_debt_of_answer (grant_isAnswer T.kind))
      · rfl
  | more hk htracks hstate hout => rw [hout]; rfl

theorem acking_pending (h : FabricInv s) (hp : s.flights[i]? = some ⟨.net, p⟩)
    (hT : s.Belongs p.ticket p.msg T) (hm : p.msg.mtype = T.kind.ack)
    (ha : p.msg.agentClineNodeID ∈ T.missing)
    (hack : T.Acked p.msg (s.dir p.msg.block) (s.tick p)) (b : Block) (n : NodeId) :
    (acking s i p T).pending b n = if n ∈ (acking s i p T).missing b then 1 else 0 := by
  have hin : (⟨.net, p⟩ : Flight).owes b n
      = if p.msg.block = b ∧ p.msg.agentClineNodeID = n then 1 else 0 := by
    simp only [Flight.owes, if_true]
    exact owes_debt (.inr (hm ▸ ack_isAck _))
  have hpend := h.pending b n
  rw [Fabric.pending, ← total_eraseIdx (Flight.owes b n) hp, hin] at hpend
  have hout : Option.elim (s.tick p).out 0 (CtrlMsg.owes b n) = 0 := Acked.out_owes hack b n
  show total (Flight.owes b n) (s.flights.eraseIdx i ++ send _ _) + (s.ccRegs n).owes b
    + (s.dirRegs b.nodeID).owes b n = _
  rw [total_append, total_send]
  show _ + Option.elim _ 0 (CtrlMsg.owes b n) + _ + _ = _
  rw [hout]
  by_cases hb : b = p.msg.block
  · subst hb
    rw [(h.tracks hT).2] at hpend
    rw [acking_missing_self h hT hm hack, (h.tracks hT).2]
    by_cases hn : n = p.msg.agentClineNodeID
    · subst hn
      simp only [true_and, if_true, ha, Finset.mem_erase, ne_eq, not_true, false_and, if_false]
        at hpend ⊢
      omega
    · simp only [Ne.symm hn, and_false, if_false, Finset.mem_erase, ne_eq, hn, not_false_iff,
        true_and] at hpend ⊢
      omega
  · rw [acking_missing_ne h hT hb, ← hpend]
    simp only [Ne.symm hb, false_and, if_false]
    omega

/-- The other debts of the block, if any, stay with the transaction. -/
theorem acking_carries (h : FabricInv s) (hT : s.Belongs p.ticket p.msg T)
    (hm : p.msg.mtype = T.kind.ack)
    (hack : T.Acked p.msg (s.dir p.msg.block) (s.tick p)) {k : Ticket} {m : CtrlMsg}
    (hmiss : m.block = p.msg.block → ((acking s i p T).missing p.msg.block).Nonempty) :
    Carries s (acking s i p T) k m := by
  intro T' hT'
  by_cases hb : m.block = p.msg.block
  · have hTT : T' = T := by
      have h1 := hT'.1
      rw [hb, hT.1] at h1
      exact (Option.some.inj h1).symm
    subst hTT
    refine ⟨T'.observe p.msg (s.tick p).out, ⟨?_, ?_, hT'.2.2⟩, rfl⟩
    · rw [hb]
      exact acking_txnOf_self h hT
    · rw [hb]
      simp only [acking, Function.update_self]
      cases hack with
      | last hlast hstate hbits hcons hout =>
          have hne := hmiss hb
          rw [acking_missing_self h hT hm (.last hlast hstate hbits hcons hout),
            (h.tracks hT).2, hlast, Finset.erase_singleton] at hne
          exact absurd hne Finset.not_nonempty_empty
      | more hk htracks hstate hout => exact htracks.state
  · refine ⟨T', ⟨?_, ?_, hT'.2.2⟩, rfl⟩
    · rw [acking_txnOf_ne h hT hb]
      exact hT'.1
    · simp only [acking, Function.update_of_ne hb]
      exact hT'.2.1

/-- The last acknowledgement completes the record. -/
theorem Txn.complete_of_last {e : DirDataE} (htracks : T.Tracks e) {m : CtrlMsg}
    (hm : m.mtype = T.kind.ack) (hlast : T.missing = {m.agentClineNodeID})
    {out : Option CtrlMsg} {m' : CtrlMsg}
    (hout : out = if T.kind.isShared then some (m'.toApp T.kind.grant) else none) :
    (T.observe m out).Complete := by
  have h2d : m.mtype.isAgent2Dir := hm ▸ TxnKind.ack_isAgent2Dir T.kind
  have ha : m.agentClineNodeID ∈ T.missing := by simp [hlast]
  obtain ⟨hatarget, hafresh⟩ := Finset.mem_filter.mp ha
  have hacked : (T.observe m out).acked = T.acked ++ [m.agentClineNodeID] := by
    simp only [Txn.observe, h2d, if_true]
  refine ⟨?_, fun n => ?_, ?_⟩
  · rw [hacked, ← List.concat_eq_append]
    exact htracks.nodup.concat hafresh
  · rw [hacked, List.mem_append, List.mem_singleton]
    constructor
    · rintro (hn | rfl)
      · exact htracks.acked n hn
      · exact hatarget
    · intro hn
      by_cases hin : n ∈ T.acked
      · exact .inl hin
      · have : n ∈ T.missing := Finset.mem_filter.mpr ⟨hn, hin⟩
        rw [hlast, Finset.mem_singleton] at this
        exact .inr this
  · simp only [Txn.observe, hout, htracks.aggacks]
    cases hk : T.kind <;> rfl

theorem acked (h : FabricInv s) (hp : s.flights[i]? = some ⟨.net, p⟩)
    (hr : (s.dirRegs p.msg.dirGblockNodeID).regCopyFlag = false)
    (hT : s.Belongs p.ticket p.msg T) (hm : p.msg.mtype = T.kind.ack)
    (htracks : T.Tracks (s.dir p.msg.block)) (ha : p.msg.agentClineNodeID ∈ T.missing)
    (hack : T.Acked p.msg (s.dir p.msg.block) (s.tick p)) : FabricInv (acking s i p T) := by
  have hmem := mem_of_getElem? hp
  have htxn := (h.belongs_current hT).2
  have hissued := h.issued _ hmem
  have hpend := acking_pending h hp hT hm ha hack
  -- a debt that is left on the block is one the transaction still misses
  have hleft : ∀ n, 0 < (acking s i p T).pending p.msg.block n →
      ((acking s i p T).missing p.msg.block).Nonempty := by
    intro n hn
    refine ⟨n, ?_⟩
    by_contra hmiss
    rw [hpend, if_neg hmiss] at hn
    omega
  have hfresh : ∀ j, s.txns j = none → (acking s i p T).txns j = none := by
    intro j hj
    have hne : j ≠ p.ticket.id := by
      rintro rfl
      rw [htxn] at hj
      cases hj
    simp only [acking, Function.update_of_ne hne]
    exact hj
  refine
    { toFlightsOk := ?_, ccRouted := h.ccRouted, dirRouted := h.dirRouted, recorded := ?_
      current := ?_, consistent := ?_, pending := hpend, ccDebt := ?_, dirDebt := ?_, settled := ?_ }
  · have hrest : FlightsOk (acking s i p T) (s.flights.eraseIdx i) := by
      have := h.toFlightsOk.erase (l := []) hp (by simp)
      rw [List.append_nil] at this
      refine this.transfer (fun f _ _ _ hn => hfresh _ hn) le_rfl fun f hf hnet hd => ?_
      refine acking_carries h hT hm hack fun hb => hleft f.packet.msg.agentClineNodeID ?_
      have hle := le_total (f := Flight.owes p.msg.block f.packet.msg.agentClineNodeID) hf
      have hone : f.owes p.msg.block f.packet.msg.agentClineNodeID = 1 := by
        simp [Flight.owes, hnet, CtrlMsg.owes, hd, hb]
      show 0 < total _ (s.flights.eraseIdx i ++ send _ _) + _ + _
      rw [total_append]
      omega
    refine hrest.change (fun _ hf => hf) (fun _ => le_rfl) fun f hf => ?_
    obtain ⟨m, hout', rfl⟩ := mem_send.mp hf
    cases hack with
    | last hlast hstate hbits hcons hout =>
        rw [hout] at hout'
        split_ifs at hout'
        cases hout'
        have hg := grant_isAnswer T.kind
        exact .answer hg hissued (.inr (.inr (.inr ⟨hg, rfl⟩)))
    | more hk htr hstate hout =>
        rw [hout] at hout'
        cases hout'
  · intro j T' hT'
    by_cases hj : j = p.ticket.id
    · subst hj
      simp only [acking, Function.update_self, Option.some.injEq] at hT'
      subst hT'
      exact h.recorded _ T htxn
    · simp only [acking, Function.update_of_ne hj] at hT'
      exact h.recorded j T' hT'
  · intro b j hc
    obtain ⟨T', hT', hblock⟩ := h.current b j hc
    by_cases hj : j = p.ticket.id
    · subst hj
      rw [htxn] at hT'
      cases hT'
      exact ⟨T.observe p.msg (s.tick p).out, by simp only [acking, Function.update_self], hblock⟩
    · exact ⟨T', by simp only [acking, Function.update_of_ne hj]; exact hT', hblock⟩
  · intro b
    by_cases hb : b = p.msg.block
    · subst hb
      rw [acking_txnOf_self h hT]
      simp only [acking, Function.update_self]
      cases hack with
      | last hlast hstate hbits hcons hout =>
          exact hcons.of_stable (by rw [hstate]; split_ifs <;> rfl)
      | more hk htr hstate hout => exact .of_tracks htr
    · rw [acking_txnOf_ne h hT hb]
      simp only [acking, Function.update_of_ne hb]
      exact h.consistent b
  · intro n hflag
    obtain ⟨T', hT', hk⟩ := h.ccDebt n hflag
    obtain ⟨T'', hT'', hkind⟩ := acking_carries (i := i) h hT hm hack (k := s.ccTicket n)
      (m := (s.ccRegs n).regCtrlMsg) (fun hb => hleft n (by
        have hone : (s.ccRegs n).owes p.msg.block = 1 := by
          rw [CcRegs.owes, if_pos ⟨hflag, hb⟩]
        show 0 < _ + (s.ccRegs n).owes p.msg.block + _
        omega)) T' hT'
    exact ⟨T'', hT'', hkind ▸ hk⟩
  · intro d hflag
    replace hflag : (s.dirRegs d).regCopyFlag := hflag
    obtain ⟨T', hT', hk⟩ := h.dirDebt d hflag
    have hne : (s.dirRegs d).regCtrlMsg.block ≠ p.msg.block := by
      intro hb
      have hd : d = p.msg.dirGblockNodeID := by
        rw [← (h.dirRouted d hflag).1]
        exact congrArg Block.nodeID hb
      rw [hd, hr] at hflag
      cases hflag
    obtain ⟨T'', hT'', hkind⟩ := acking_carries (i := i) h hT hm hack (k := s.dirTicket d)
      (m := (s.dirRegs d).regCtrlMsg) (fun hb => absurd hb hne) T' hT'
    exact ⟨T'', hT'', hkind ▸ hk⟩
  · intro j T' hT'
    by_cases hj : j = p.ticket.id
    · subst hj
      simp only [acking, Function.update_self, Option.some.injEq] at hT'
      subst hT'
      cases hack with
      | last hlast hstate hbits hcons hout =>
          exact .inr (Txn.complete_of_last htracks hm hlast hout)
      | more hk htr hstate hout =>
          refine .inl ⟨?_, ?_⟩
          · rw [Txn.observe_header, hT.2.2.2]
            exact (h.belongs_current hT).1
          · rw [Txn.observe_header, hT.2.2.2]
            show (Function.update s.dir p.msg.block _ p.msg.block).state.isTransient
            rw [Function.update_self, htr.state]
            exact TxnKind.state_isTransient _
    · simp only [acking, Function.update_of_ne hj] at hT'
      rcases h.settled j T' hT' with ⟨hcur, ht⟩ | hcomplete
      · have hb : T'.header.block ≠ p.msg.block := by
          intro hb
          rw [hb, (h.belongs_current hT).1] at hcur
          exact hj (Option.some.inj hcur).symm
        refine .inl ⟨hcur, ?_⟩
        simp only [acking, Function.update_of_ne hb]
        exact ht
      · exact .inr hcomplete

end Acking

/-! ## Every step -/

/-- Every step of the fabric keeps the invariant. -/
theorem step (h : FabricInv s) {qNum : ℕ} {a : FabricAction} {s' : Fabric}
    (hs : Fabric.step qNum a s = some s') : FabricInv s' := by
  cases Stepped.of_step hs with
  | inject m hm => exact h.inject hm
  | dirTick i p hp hd hr =>
      have hdst := (routed_toDir (h.routed _ (mem_of_getElem? hp)) hd).1
      have hticked := h.dirTicked hp hd hr
      rw [hdst] at hr
      generalize s.afterDirTick i p = s' at hticked
      cases hticked with
      | answered hm hstay => exact h.answered hp hm hstay
      | opened hm hstable htrans => exact h.opened hp hm hr hstable htrans
      | acked T hT hm htracks ha hack => exact h.acked hp hr hT hm htracks ha hack
  | dirCopy d hr => exact h.dirCopy hr
  | ccTick i p hp hd hr => exact h.ccTick hp hr (h.ccTicked hp hd hr)
  | ccCopy n hr => exact h.ccCopy hr
  | pop loc i p hl hp hi => exact h.pop hl hp

theorem init (h : Fabric.Init s) : FabricInv s where
  routed := by simp [h.flights]
  fresh := by simp [h.flights]
  unique := by simp [h.flights]
  issued := by simp [h.flights]
  debt := by simp [h.flights]
  ccRouted := fun n hf => by rw [h.ccRegs n] at hf; cases hf
  dirRouted := fun d hf => by rw [h.dirRegs d] at hf; cases hf
  recorded := fun i T hT => by rw [h.txns i] at hT; cases hT
  current := fun b i hi => by rw [h.current b] at hi; cases hi
  consistent := fun b => .of_init (h.dir b)
  pending := by
    intro b n
    have ht : (s.dir b).state.isTransient = false := by rw [(h.dir b).1]; rfl
    rw [missing_of_stable ht, if_neg (Finset.notMem_empty n)]
    simp [Fabric.pending, h.flights, CcRegs.owes, DirRegs.owes, h.ccRegs, h.dirRegs]
  ccDebt := fun n hf => by rw [h.ccRegs n] at hf; cases hf
  dirDebt := fun d hf => by rw [h.dirRegs d] at hf; cases hf
  settled := fun i T hT => by rw [h.txns i] at hT; cases hT

end FabricInv

/-- The invariant holds in every reachable state of the fabric. -/
theorem fabric_inv {qNum : ℕ} {s : Fabric} (h : (fabric qNum).Reachable s) : FabricInv s :=
  TransitionSystem.Reachable.invariant (fun _ h0 => .init h0) (fun _ _ _ _ hi hs => hi.step hs) h

end Ting
