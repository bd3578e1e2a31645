/-
# `Ting.Hls.Ownership` — whom the directory takes for the owner

A node that the directory counts as the writer of a block is the only one that it counts as an
owner (`exclusive`), and orders go to owners only: to the writer, or to one of the sharers that
the multicast has left (`meant_cases`).
-/
import Ting.Hls.Replies

namespace Ting

open Total

variable {s s' : Fabric} {b : Block} {n : NodeId} {d : RawMessageType → Bool}

section Weights

@[simp] theorem Ledger.meant_flight (f : Flight) :
    (Ledger.meant d n b).flight f = f.packet.msg.forAgent d n b := rfl

@[simp] theorem Ledger.meant_cc (r : CcRegs) : (Ledger.meant d n b).cc r = 0 := rfl

@[simp] theorem Ledger.meant_dir (r : DirRegs) : (Ledger.meant d n b).dir r = 0 := rfl

@[simp] theorem Ledger.meant_entry (e : DirDataE) (T : Option Txn) :
    (Ledger.meant d n b).entry e T = 0 := rfl

@[simp] theorem Ledger.meant_sent (k : Ticket) (out : Option CtrlMsg) :
    (Ledger.meant d n b).sent k out = out.elim 0 (·.forAgent d n b) := by
  cases out <;> rfl

end Weights

/-! ## Orders -/

theorem CtrlMsg.forAgent_cases {m : CtrlMsg} : m.forAgent d n b = 0 ∨
    m.forAgent d n b = 1 ∧ d m.mtype = true ∧ m.agentClineNodeID = n := by
  by_cases hd : d m.mtype = true
  · rw [forAgent, if_pos hd, meantFor]
    by_cases hm : m.block = b ∧ m.agentClineNodeID = n
    · exact .inr ⟨ind_of hm, hd, hm.2⟩
    · exact .inl (ind_of_not hm)
  · exact .inl (if_neg hd)

/-- What the directory sends in an internal step is an order of class `d` to node `n` at most
once; and then the node is the writer, or it is one of the sharers that the multicast owes an
order. -/
theorem BlockStep.meant_cases (h : BlockStep b s s') (hd : ∀ t, d t = true → t.isOrder = true) :
    (Ledger.meant d n b).value s' = (Ledger.meant d n b).value s ∨
      (Ledger.meant d n b).value s' = (Ledger.meant d n b).value s + 1 ∧
        ((∃ t, d t = true ∧ t.takesWrite = true) ∧ 1 ≤ s.writeOwning n b ∨
          (∃ t, d t = true ∧ t.isSharedOrder = true) ∧ 1 ≤ (Ledger.owing n b).value s) := by
  have hnot : ∀ {c : RawMessageType → Bool}, (∀ t, c t = true → t.isOrder = false) →
      ∀ t, c t = true → d t = false := by
    intro c hc t ht
    by_contra hne
    have := hd t (Bool.eq_true_of_not_eq_false hne)
    rw [hc t ht] at this
    cases this
  cases h with
  | elsewhere h => exact .inl (h _)
  | answered p e ty hb hin hm hk hr hans h =>
      have hl := h (.meant d n b)
      simp only [Ledger.meant_flight, Ledger.meant_entry] at hl
      rw [CtrlMsg.forAgent_zero (hnot (c := (·.isRequest)) (by decide)) hm,
        CtrlMsg.forAgent_zero (m := CtrlMsg.toApp _ _) (hnot (c := (·.isAnswer)) (by decide))
          hans.isAnswer] at hl
      exact .inl (by omega)
  | opened p t hb hin hm hk hr hstable htracks hasks h =>
      have hl := h (.meant d n b)
      simp only [Ledger.meant_flight, Ledger.meant_entry, Ledger.meant_dir, Ledger.meant_sent] at hl
      rw [CtrlMsg.forAgent_zero (hnot (c := (·.isRequest)) (by decide)) hm] at hl
      cases hasks with
      | owner hk' o a ho hregs hout hs hbits =>
          rw [hout] at hl
          change _ = _ + (CtrlMsg.forAgent d n b (CtrlMsg.toAgent _ _ o a) + 0 + 0) at hl
          rcases CtrlMsg.forAgent_cases (d := d) (n := n) (b := b)
            (m := (latch p.msg (s.dir b)).toAgent (Txn.start p.ticket p.msg (s.dir b)).kind.order o a)
            with hz | ⟨h1, hord, hn⟩
          · exact .inl (by omega)
          · refine .inr ⟨by omega, .inl ⟨⟨_, hord, ?_⟩, ?_⟩⟩
            · rw [CtrlMsg.toAgent_mtype]
              cases hkind : (Txn.start p.ticket p.msg (s.dir b)).kind <;> rw [hkind] at hk' <;>
                first | rfl | cases hk'
            · have hle := (Ledger.writeOwning n b).entry_le s
              obtain rfl : o = n := hn
              have hone : (Ledger.writeOwning o b).entry (s.dir b) (s.txnOf b) = 1 :=
                ind_of ⟨hs, by rw [hbits]; exact Finset.mem_singleton_self o⟩
              rw [hone] at hle
              exact hle
      | sharers hk' hs hm' hb' hregs hout =>
          have hout' : ∀ m, t.out = some m → m.mtype.isAnswer = true := by
            intro m hm
            rw [hout] at hm
            split_ifs at hm
            cases hm
            rfl
          rw [sent_forAgent hout' (hnot (by decide))] at hl
          exact .inl (by omega)
  | acked p T t hb hin hT hm htracks ha hack h =>
      have hl := h (.meant d n b)
      have hin' : p.msg.mtype.isAck = true := hm ▸ FabricInv.ack_isAck _
      simp only [Ledger.meant_flight, Ledger.meant_entry, Ledger.meant_sent] at hl
      rw [CtrlMsg.forAgent_zero (hnot (c := (·.isAck)) (by decide)) hin',
        sent_forAgent (fun m hm => hack.out_type hm) (hnot (by decide))] at hl
      exact .inl (by omega)
  | delivered p T a hb hin hT hm hk h =>
      have hl := h (.meant d n b)
      have hack : ((p.msg.forThread .sys).toHome T.kind.ack).mtype.isAck = true :=
        FabricInv.ack_isAck _
      simp only [Ledger.meant_flight] at hl
      rw [CtrlMsg.forAgent_zero (hnot (c := (·.isAck)) (by decide)) hack] at hl
      change _ + p.msg.forAgent d n b = _ + (p.msg.forAgent d n b + 0) at hl
      exact .inl (by omega)
  | shipped p T a hb hin hT hm hk h =>
      have hl := h (.meant d n b)
      have hans : ((p.msg.forThread .sys).toRequester T.kind.grant).mtype.isAnswer = true :=
        FabricInv.grant_isAnswer _
      simp only [Ledger.meant_flight, Ledger.meant_cc] at hl
      rw [CtrlMsg.forAgent_zero (hnot (c := (·.isAnswer)) (by decide)) hans] at hl
      change _ + p.msg.forAgent d n b = _ + (p.msg.forAgent d n b + 0 + 0) at hl
      exact .inl (by omega)
  | passed p hb hin hm h =>
      have hl := h (.meant d n b)
      change _ + p.msg.forAgent d n b = _ + p.msg.forAgent d n b at hl
      exact .inl (by omega)
  | shipAcked k r T hb hf hT hm hk h =>
      have hl := h (.meant d n b)
      have hack : (r.regCtrlMsg.toHome T.kind.ack).mtype.isAck = true := FabricInv.ack_isAck _
      simp only [Ledger.meant_flight, Ledger.meant_cc] at hl
      rw [CtrlMsg.forAgent_zero (hnot (c := (·.isAck)) (by decide)) hack] at hl
      exact .inl (by omega)
  | copied k r t T hb hf hT hk hcopy h =>
      have hl := h (.meant d n b)
      have hsent : t.2.elim 0 (·.forAgent d n b) = 0 ∨
          t.2.elim 0 (·.forAgent d n b) = 1 ∧ (∃ u, d u = true ∧ u.isSharedOrder = true) ∧
            t.2.elim 0 (·.forAgent (·.revokes) n b) = 1 := by
        cases ht : t.2 with
        | none => exact .inl rfl
        | some m =>
            have hshared := hcopy.out_type hk ht
            have hrev : m.mtype.revokes = true := by
              revert hshared
              generalize m.mtype = u
              revert u
              decide
            rcases CtrlMsg.forAgent_cases (d := d) (n := n) (b := b) (m := m) with hz | ⟨h1, hu, -⟩
            · exact .inl hz
            · refine .inr ⟨h1, ⟨_, hu, hshared⟩, ?_⟩
              rw [CtrlMsg.forAgent, if_pos hu] at h1
              exact (if_pos hrev).trans h1
      have howes := hcopy.owes (n := n) (b := b) hf hk
      have howing := h (.owing n b)
      have hzero : (Ledger.owing n b).sent k t.2 = 0 := by
        cases t.2 <;> rfl
      change _ + r.owes b n = _ + (t.1.owes b n + _) at howing
      simp only [Ledger.meant_dir, Ledger.meant_sent] at hl
      rcases hsent with hz | ⟨h1, hu, hrev⟩
      · exact .inl (by omega)
      · exact .inr ⟨by omega, .inr ⟨hu, by omega⟩⟩

/-! ## Owners -/

namespace FabricInv

/-- An acknowledgement that credits its requester is on the network, and belongs to the pending
transaction. -/
theorem shipAck_belongs (h : FabricInv s) {f : Flight} (hf : f ∈ s.flights)
    (hack : f.packet.msg.mtype.isShipAck = true) :
    ∃ T, s.Belongs f.packet.ticket f.packet.msg T ∧ f.packet.msg.mtype = T.kind.ack := by
  have hclass : ∀ t : RawMessageType, t.isShipAck = true →
      t.isAck = true ∧ t.isOrder = false ∧ t.isAnswer = false := by decide
  obtain ⟨hisAck, hord, hans⟩ := hclass _ hack
  have hnet : f.loc = .net := by
    have hroute := h.routed f hf
    unfold Flight.Routed at hroute
    cases hl : f.loc <;> simp only [hl] at hroute
    · rfl
    · rw [hans] at hroute
      cases hroute.1
    · rw [hord] at hroute
      cases hroute.1
  obtain ⟨T, hT, hm | hm⟩ := h.debt f hf hnet (by rw [CtrlMsg.isDebt, hisAck, Bool.or_true])
  · rw [hm, order_isOrder] at hord
    cases hord
  · exact ⟨T, hT, hm⟩

/-- A node that is credited with a block is in the entry, or the pending transaction is one in
which the owner has shipped the block to it. -/
theorem owning_cases (h : FabricInv s) (hpos : 1 ≤ s.owning n b) :
    n ∈ (s.dir b).owned (s.txnOf b) ∨ ∃ T, s.txnOf b = some T ∧
      (s.dir b).state = T.kind.state ∧ T.req = n ∧ T.kind.isShared = false := by
  by_cases hown : n ∈ (s.dir b).owned (s.txnOf b)
  · exact .inl hown
  right
  change 1 ≤ total (Ledger.owning n b).flight s.flights + ∑ k, (s.ccRegs k).ships n b + 0
    + ind (n ∈ (s.dir b).owned (s.txnOf b)) at hpos
  rw [ind_of_not hown] at hpos
  by_cases hfl : total (Ledger.owning n b).flight s.flights = 0
  · obtain ⟨k, -, hk⟩ := Finset.exists_ne_zero_of_sum_ne_zero
      (show ∑ k, (s.ccRegs k).ships n b ≠ 0 by omega)
    unfold CcRegs.ships at hk
    split at hk
    next hf =>
      obtain ⟨rfl, rfl⟩ := CtrlMsg.askedBy_pos (Nat.pos_of_ne_zero hk)
      obtain ⟨T, hT, hm⟩ := h.ccDebt k hf
      refine ⟨T, hT.1, hT.2.1, congrArg Header.reqClineNodeID hT.2.2.2, ?_⟩
      rcases (h.ccRouted k hf).2 with ho | ho <;> rw [ho] at hm <;> cases hkind : T.kind <;>
        rw [hkind] at hm <;> first | rfl | cases hm
    next => exact absurd rfl hk
  · obtain ⟨f, hf, hw⟩ := exists_of_total_pos (Nat.pos_of_ne_zero hfl)
    obtain ⟨hack, rfl, rfl⟩ := CtrlMsg.forReq_pos hw
    obtain ⟨T, hT, hm⟩ := h.shipAck_belongs hf hack
    refine ⟨T, hT.1, hT.2.1, congrArg Header.reqClineNodeID hT.2.2.2, ?_⟩
    rw [hm] at hack
    revert hack
    cases T.kind <;> decide

/-- The same, of a node that is credited with the right to write. -/
theorem writeOwning_cases (h : FabricInv s) (hpos : 1 ≤ s.writeOwning n b) :
    (s.dir b).state = .sDirty ∧ n ∈ (s.dir b).bits ∨ ∃ T, s.txnOf b = some T ∧
      (s.dir b).state = T.kind.state ∧ T.req = n ∧ T.kind = .writeMissDirty := by
  by_cases hown : (s.dir b).state = .sDirty ∧ n ∈ (s.dir b).bits
  · exact .inl hown
  right
  change 1 ≤ total (Ledger.writeOwning n b).flight s.flights + ∑ k, (s.ccRegs k).shipsDirty n b + 0
    + ind ((s.dir b).state = .sDirty ∧ n ∈ (s.dir b).bits) at hpos
  rw [ind_of_not hown] at hpos
  by_cases hfl : total (Ledger.writeOwning n b).flight s.flights = 0
  · obtain ⟨k, -, hk⟩ := Finset.exists_ne_zero_of_sum_ne_zero
      (show ∑ k, (s.ccRegs k).shipsDirty n b ≠ 0 by omega)
    unfold CcRegs.shipsDirty at hk
    split at hk
    next hf =>
      obtain ⟨rfl, rfl⟩ := CtrlMsg.askedBy_pos (Nat.pos_of_ne_zero hk)
      obtain ⟨T, hT, hm⟩ := h.ccDebt k hf.1
      refine ⟨T, hT.1, hT.2.1, congrArg Header.reqClineNodeID hT.2.2.2, ?_⟩
      rw [hf.2] at hm
      cases hkind : T.kind <;> rw [hkind] at hm <;> first | rfl | cases hm
    next => exact absurd rfl hk
  · obtain ⟨f, hf, hw⟩ := exists_of_total_pos (Nat.pos_of_ne_zero hfl)
    obtain ⟨hack, rfl, rfl⟩ := CtrlMsg.forReq_pos hw
    have hclass : ∀ t : RawMessageType, t.isDirtyShipAck = true → t.isShipAck = true := by decide
    obtain ⟨T, hT, hm⟩ := h.shipAck_belongs hf (hclass _ hack)
    refine ⟨T, hT.1, hT.2.1, congrArg Header.reqClineNodeID hT.2.2.2, ?_⟩
    rw [hm] at hack
    revert hack
    cases T.kind <;> decide

/-- While the multicast owes an order, a transaction is pending that needs every sharer. -/
theorem owing_cases (h : FabricInv s) (hpos : 1 ≤ (Ledger.owing n b).value s) :
    ∃ T, s.txnOf b = some T ∧ (s.dir b).state = T.kind.state ∧ T.kind.isShared := by
  rw [Ledger.owing_value, DirRegs.owes] at hpos
  split at hpos
  next hc =>
    obtain ⟨T, hT, hk, -⟩ := h.dirDebt _ hc.1
    exact ⟨T, hc.2.1 ▸ hT.1, hc.2.1 ▸ hT.2.1, hk⟩
  next => cases hpos

/-- The writer of a block is its only owner. -/
theorem exclusive (h : FabricInv s) {k : NodeId} (hw : 1 ≤ s.writeOwning n b) (hne : k ≠ n) :
    s.owning k b = 0 ∧ (Ledger.owing k b).value s = 0 := by
  have hstate : ∀ T : Txn, T.kind.state ≠ .sDirty := fun T => by cases T.kind <;> decide
  rcases h.writeOwning_cases hw with ⟨hs, hn⟩ | ⟨T, hT, hs, hreq, hk⟩
  · refine ⟨?_, ?_⟩
    · by_contra hpos
      rcases h.owning_cases (Nat.pos_of_ne_zero hpos) with hown | ⟨U, -, hs', -⟩
      · rw [DirDataE.owned_eq hs (by decide)] at hown
        obtain ⟨o, ho⟩ := Finset.card_eq_one.mp ((h.consistent b).dirty hs).1
        rw [ho, Finset.mem_singleton] at hn hown
        exact hne (hown.trans hn.symm)
      · exact hstate U (hs'.symm.trans hs)
    · by_contra hpos
      obtain ⟨U, -, hs', -⟩ := h.owing_cases (Nat.pos_of_ne_zero hpos)
      exact hstate U (hs'.symm.trans hs)
  · have hs : (s.dir b).state = .sToDirty := by rw [hs, hk]; rfl
    refine ⟨?_, ?_⟩
    · by_contra hpos
      rcases h.owning_cases (Nat.pos_of_ne_zero hpos) with hown | ⟨U, hU, -, hreq', -⟩
      · rw [DirDataE.owned, if_pos hs, hT] at hown
        simp [hk] at hown
      · cases hT.symm.trans hU
        exact hne (hreq'.symm.trans hreq)
    · by_contra hpos
      obtain ⟨U, hU, -, hk'⟩ := h.owing_cases (Nat.pos_of_ne_zero hpos)
      cases hT.symm.trans hU
      rw [hk] at hk'
      cases hk'

/-- There is one writer of a block at most. -/
theorem writer_unique (h : FabricInv s) {k : NodeId} (hn : 1 ≤ s.writeOwning n b)
    (hk : 1 ≤ s.writeOwning k b) : k = n := by
  have hstate : ∀ T : Txn, T.kind.state ≠ .sDirty := fun T => by cases T.kind <;> decide
  rcases h.writeOwning_cases hn with ⟨hs, hn⟩ | ⟨T, hT, hs, hreq, -⟩ <;>
    rcases h.writeOwning_cases hk with ⟨hs', hk⟩ | ⟨U, hU, hs', hreq', -⟩
  · obtain ⟨o, ho⟩ := Finset.card_eq_one.mp ((h.consistent b).dirty hs).1
    rw [ho, Finset.mem_singleton] at hn hk
    exact hk.trans hn.symm
  · exact absurd (hs'.symm.trans hs) (hstate U)
  · exact absurd (hs.symm.trans hs') (hstate T)
  · cases hT.symm.trans hU
    exact hreq'.symm.trans hreq

end FabricInv

end Ting
