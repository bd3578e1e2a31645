/-
# `Ting.Hls.Multicast` — whom a write invalidates

A write miss on a shared block, or an upgrade by one of several sharers, opens a multicast: in the
ticks that follow, the stage walks down the bitmap it has saved and orders every sharer but the
requester to give up its replica.  Each of them acknowledges, and the entry counts the
acknowledgements.  The number of orders comes from the bitmap, the number of acknowledgements from
`replica_count`; this module shows that the two agree.
-/
import Ting.Hls.DirStage
import Ting.Hls.DirEntry

namespace Ting

/-! ## The scan, tick after tick -/

/-- The nodes of a bitmap in the order in which the multicast takes them. -/
def descending (bitmap : NodeId → Bool) : List NodeId :=
  (List.finRange 8).reverse.filter (bitmap ·)

theorem mem_descending {bitmap : NodeId → Bool} {n : NodeId} :
    n ∈ descending bitmap ↔ bitmap n = true := by
  simp [descending]

theorem descending_nodup (bitmap : NodeId → Bool) : (descending bitmap).Nodup :=
  .filter _ (List.nodup_reverse.mpr (List.nodup_finRange 8))

theorem lastSet_eq_head (bitmap : NodeId → Bool) : lastSet bitmap = (descending bitmap).head? := by
  rw [lastSet_eq_find, descending, List.head?_filter]

/-- Clearing the cell that the scan has found leaves the others to be found. -/
theorem descending_update {bitmap : NodeId → Bool} {n : NodeId} {ns : List NodeId}
    (h : descending bitmap = n :: ns) : descending (Function.update bitmap n false) = ns := by
  have hnd : n ∉ ns := (List.nodup_cons.mp (h ▸ descending_nodup bitmap)).1
  have hfilter : descending (Function.update bitmap n false)
      = (descending bitmap).filter (· ≠ n) := by
    rw [descending, descending, List.filter_filter]
    refine List.filter_congr fun k _ => ?_
    cases hk : decide (k ≠ n) with
    | true => simp [Function.update_of_ne (of_decide_eq_true hk)]
    | false => rw [not_ne_iff.mp (of_decide_eq_false hk)]; simp
  rw [hfilter, h, List.filter_cons_of_neg (by simp)]
  exact List.filter_eq_self.mpr fun k hk => decide_eq_true (fun he => hnd (he ▸ hk))

theorem length_descending (e : DirDataE) : (descending e.dirGblockBitmap).length = e.bits.card := by
  rw [← List.toFinset_card_of_nodup (descending_nodup _)]
  congr 1
  ext n
  rw [List.mem_toFinset, mem_descending, DirDataE.mem_bits]

/-! ## The two multicasts -/

/-- The requests that open a multicast. -/
inductive MulticastKind
  | writeMiss
  | writeShared

namespace MulticastKind

/-- The request. -/
def request : MulticastKind → RawMessageType
  | writeMiss => .rWriteMiss
  | writeShared => .rWriteShared

/-- The order to the other sharers. -/
def order : MulticastKind → RawMessageType
  | writeMiss => .dir2AgentWriteMissShared
  | writeShared => .dir2AgentWriteSharedNotonly

/-- Their acknowledgement. -/
def ack : MulticastKind → RawMessageType
  | writeMiss => .agent2DirWriteMissSharedAck
  | writeShared => .agent2DirWriteSharedNotonlyAck

/-- What the requester gets with the last of them. -/
def aggack : MulticastKind → RawMessageType
  | writeMiss => .dir2AppWriteMissSharedAggackAck
  | writeShared => .dir2AppWriteSharedNotonlyAggackAck

/-- The count that the last acknowledgement finds. -/
def lastCount : MulticastKind → ℕ
  | writeMiss => 1
  | writeShared => 2

end MulticastKind

/-- The multicast that a request opens: a write miss by a node without a replica, or an upgrade by
a node with one while others have one too. -/
def Opens (k : MulticastKind) (m : CtrlMsg) (e : DirDataE) : Prop :=
  m.mtype = k.request ∧ e.state = .sShared ∧
    match k with
    | .writeMiss => e.dirGblockBitmap m.reqClineNodeID = false
    | .writeShared => e.dirGblockBitmap m.reqClineNodeID = true ∧
        ∃ n, n ≠ m.reqClineNodeID ∧ e.dirGblockBitmap n = true

/-- The order to node `n`. -/
def orderTo (k : MulticastKind) (m : CtrlMsg) (e : DirDataE) (n : NodeId) : CtrlMsg :=
  (latch m e).toAgent k.order n (e.agentClineAddr n)

/-- The orders to the nodes in `ns`; the requester is passed over. -/
def orders (k : MulticastKind) (m : CtrlMsg) (e : DirDataE) (ns : List NodeId) : List CtrlMsg :=
  (ns.filter (· != m.reqClineNodeID)).map (orderTo k m e)

/-- The registers in the middle of a multicast that still has the nodes `ns` to go. -/
structure Sending (k : MulticastKind) (m : CtrlMsg) (e : DirDataE) (r : DirRegs)
    (ns : List NodeId) : Prop where
  flag : r.regCopyFlag = true
  ctrlMsg : r.regCtrlMsg = latch m e
  state : r.regDirData.state = .sShared
  addr : r.regDirData.agentClineAddr = e.agentClineAddr
  left : descending r.regDirData.dirGblockBitmap = ns
  among : ∀ n ∈ ns, e.dirGblockBitmap n = true

section Loop

variable {k : MulticastKind} {m : CtrlMsg} {e : DirDataE} {r : DirRegs} {n : NodeId}
  {ns : List NodeId}

theorem orders_cons : orders k m e (n :: ns) =
    (if n = m.reqClineNodeID then [] else [orderTo k m e n]) ++ orders k m e ns := by
  cases h : decide (n = m.reqClineNodeID) with
  | true => simp [orders, of_decide_eq_true h]
  | false => simp [orders, of_decide_eq_false h]

/-- With no node left the flag is cleared. -/
theorem Sending.done (hs : Sending k m e r []) (ho : Opens k m e) :
    copyStep r = ({ r with regCopyFlag := false }, none) := by
  have hl : lastSet r.regDirData.dirGblockBitmap = none := by rw [lastSet_eq_head, hs.left]; rfl
  have hm : r.regCtrlMsg.mtype = k.request := by rw [hs.ctrlMsg]; exact ho.1
  cases k with
  | writeMiss => simp only [copyStep, hm, hs.state, hl, MulticastKind.request]
  | writeShared => simp only [copyStep, hm, hs.state, hl, MulticastKind.request]

/-- With a node left its order is sent, unless it is the requester, and its cell is cleared. -/
theorem Sending.next (hs : Sending k m e r (n :: ns)) (ho : Opens k m e) :
    copyStep r = ({ r with regDirData := r.regDirData.setBit n false },
      if n = m.reqClineNodeID then none else some (orderTo k m e n)) := by
  have hl : lastSet r.regDirData.dirGblockBitmap = some n := by
    rw [lastSet_eq_head, hs.left]; rfl
  have hn : e.dirGblockBitmap n = true := hs.among n List.mem_cons_self
  cases k with
  | writeMiss =>
      -- here the requester is not looked at: it has no replica
      have hne : n ≠ m.reqClineNodeID := by
        intro h
        rw [h, ho.2.2] at hn
        cases hn
      simp only [copyStep, hs.ctrlMsg, latch_mtype, ho.1, hs.state, hl, MulticastKind.request,
        if_neg hne, orderTo, hs.addr, MulticastKind.order]
  | writeShared =>
      simp only [copyStep, hs.ctrlMsg, latch_mtype, ho.1, hs.state, hl, MulticastKind.request,
        latch_reqClineNodeID, orderTo, hs.addr, MulticastKind.order]
      split <;> rfl

/-- A tick of the loop leaves one node less. -/
theorem Sending.step (hs : Sending k m e r (n :: ns)) (ho : Opens k m e) :
    Sending k m e (copyStep r).1 ns := by
  rw [hs.next ho]
  exact ⟨hs.flag, hs.ctrlMsg, hs.state, hs.addr, descending_update hs.left,
    fun k hk => hs.among k (List.mem_cons_of_mem n hk)⟩

end Loop

/-! ## The multicast among the other ticks -/

namespace DirStage

/-- The multicast has not ended before the last of the actions. -/
def Copying : DirStage → List StageAction → Prop
  | _, [] => True
  | s, a :: acts => s.regs.regCopyFlag = true ∧ (s.step a).Copying acts

/-- A tick that finds no `INIT_DIR` message. -/
def pass (s : DirStage) : StageAction → Bool
  | .tick _ => s.dirDataInit.isEmpty
  | _ => false

/-- How many ticks of a run find no `INIT_DIR` message. -/
def passes : DirStage → List StageAction → ℕ
  | _, [] => 0
  | s, a :: acts => (s.pass a).toNat + (s.step a).passes acts

end DirStage

/-- The control messages that a run brings. -/
def ctrlMsgsIn (acts : List StageAction) : List CtrlMsg :=
  acts.filterMap fun
    | .ctrlMsgR m => some m
    | _ => none

/-- The entries that a run brings. -/
def dirDataIn (acts : List StageAction) : List DirDataE :=
  acts.filterMap fun
    | .dirData e => some e
    | _ => none

namespace DirStage

variable {s : DirStage} {a : StageAction} {acts : List StageAction}

theorem step_of_pass (h : s.pass a = true) (hf : s.regs.regCopyFlag = true) :
    s.step a = s.copy := by
  cases a with
  | tick u => exact tick_copy (List.isEmpty_iff.mp h) hf u
  | _ => cases h

theorem step_of_not_pass (h : s.pass a = false) :
    (s.step a).regs = s.regs ∧ (s.step a).ctrlMsgOut = s.ctrlMsgOut := by
  cases a with
  | tick u =>
      cases hd : s.dirDataInit with
      | nil => rw [pass, hd] at h; cases h
      | cons d ds =>
          rw [step, tick_init hd]
          exact ⟨rfl, rfl⟩
  | _ => exact ⟨rfl, rfl⟩

/-- During a multicast a tick leaves the messages and the entries that wait alone. -/
theorem tick_inputs (hf : s.regs.regCopyFlag = true) (u : Uninit) :
    (s.tick u).ctrlMsgRIn = s.ctrlMsgRIn ∧ (s.tick u).dirDataIn = s.dirDataIn := by
  cases hd : s.dirDataInit with
  | nil => rw [tick_copy hd hf]; exact ⟨rfl, rfl⟩
  | cons d ds => rw [tick_init hd]; exact ⟨rfl, rfl⟩

/-- Until the multicast has ended, no message and no entry is taken up. -/
theorem Copying.inputs (hc : s.Copying acts) :
    (s.run acts).ctrlMsgRIn = s.ctrlMsgRIn ++ ctrlMsgsIn acts ∧
      (s.run acts).dirDataIn = s.dirDataIn ++ Ting.dirDataIn acts := by
  induction acts generalizing s with
  | nil => exact ⟨(List.append_nil _).symm, (List.append_nil _).symm⟩
  | cons a acts ih =>
      obtain ⟨hf, hc⟩ := hc
      obtain ⟨hm, he⟩ := ih hc
      rw [run_cons, hm, he]
      cases a with
      | dirDataInit d => exact ⟨rfl, rfl⟩
      | ctrlMsgR m => exact ⟨List.append_assoc _ _ _, rfl⟩
      | dirData e => exact ⟨rfl, List.append_assoc _ _ _⟩
      | tick u =>
          rw [step, (tick_inputs hf u).1, (tick_inputs hf u).2]
          exact ⟨rfl, rfl⟩

variable {k : MulticastKind} {m : CtrlMsg} {e : DirDataE} {ns : List NodeId}

/-- What has been sent so far, and when the multicast ends. -/
theorem Copying.sent (ho : Opens k m e) (hs : Sending k m e s.regs ns) (hc : s.Copying acts) :
    s.passes acts ≤ ns.length + 1 ∧
      (s.run acts).ctrlMsgOut = s.ctrlMsgOut ++ orders k m e (ns.take (s.passes acts)) ∧
      ((s.run acts).regs.regCopyFlag = false ↔ s.passes acts = ns.length + 1) := by
  induction acts generalizing s ns with
  | nil =>
      refine ⟨Nat.zero_le _, (List.append_nil _).symm, ?_⟩
      rw [run_nil, hs.flag]
      exact ⟨nofun, nofun⟩
  | cons a acts ih =>
      obtain ⟨hf, hc⟩ := hc
      cases hp : s.pass a with
      | false =>
          obtain ⟨hr, hout⟩ := step_of_not_pass hp
          have hi := ih (hr ▸ hs) hc
          simpa only [run_cons, passes, hp, hout, Bool.toNat_false, Nat.zero_add] using hi
      | true =>
          have hcopy := step_of_pass hp hf
          rw [hcopy] at hc
          simp only [run_cons, passes, hp, hcopy, Bool.toNat_true]
          cases ns with
          | nil =>
              have hregs : s.copy.regs.regCopyFlag = false := by rw [copy, hs.done ho]
              have hout : s.copy.ctrlMsgOut = s.ctrlMsgOut := by
                rw [copy, hs.done ho]; exact List.append_nil _
              -- the flag is down, so this was the last action
              cases acts with
              | cons a' acts => rw [hc.1] at hregs; cases hregs
              | nil => exact ⟨Nat.le_refl _, by simp [hout, passes, orders], by simp [hregs, passes]⟩
          | cons n ns =>
              have hs' : Sending k m e s.copy.regs ns := hs.step ho
              obtain ⟨hle, hout, hflag⟩ := ih hs' hc
              refine ⟨?_, ?_, ?_⟩
              · rw [List.length_cons]; omega
              · rw [hout, Nat.add_comm 1, List.take_succ_cons, orders_cons, copy, hs.next ho,
                  ← List.append_assoc]
                congr 2
                split <;> rfl
              · rw [hflag, List.length_cons]; omega

end DirStage

/-! ## The acknowledgements -/

/-- What the directory sends while it takes up the messages `as` about one block. -/
def answers (r : DirRegs) : DirDataE → List CtrlMsg → List CtrlMsg
  | _, [] => []
  | e, a :: as => (transaction r a e).out.toList ++ answers r (transaction r a e).dirData as

section Acks

variable {k : MulticastKind} {r : DirRegs} {a : CtrlMsg} {e : DirDataE}

/-- The last acknowledgement is answered. -/
theorem ack_last (ha : a.mtype = k.ack) (he : e.state = .sToDirty)
    (hc : e.replicaCount.toNat = k.lastCount) :
    (transaction r a e).out = some ((latch a e).toApp k.aggack) := by
  cases k with
  | writeMiss =>
      have h1 : e.replicaCount = 1 := BitVec.eq_of_toNat_eq hc
      simp only [transaction, ha, MulticastKind.ack, onWriteMissSharedAck, he, h1, if_true]
      rfl
  | writeShared =>
      have h2 : e.replicaCount = 2 := BitVec.eq_of_toNat_eq hc
      simp only [transaction, ha, MulticastKind.ack, onWriteSharedNotonlyAck, he, h2, if_true]
      rfl

/-- An earlier one is only counted. -/
theorem ack_more {c : ℕ} (ha : a.mtype = k.ack) (he : e.state = .sToDirty)
    (hc : e.replicaCount.toNat = k.lastCount + c) (h0 : c ≠ 0) :
    (transaction r a e).out = none ∧ (transaction r a e).dirData.state = .sToDirty ∧
      (transaction r a e).dirData.replicaCount = e.replicaCount - 1 := by
  cases k with
  | writeMiss =>
      have hne : e.replicaCount ≠ 1 := by
        intro h
        rw [h] at hc
        exact h0 (Nat.left_eq_add.mp hc)
      simp only [transaction, ha, MulticastKind.ack, onWriteMissSharedAck, he, if_neg hne]
      exact ⟨rfl, he, rfl⟩
  | writeShared =>
      have hne : e.replicaCount ≠ 2 := by
        intro h
        rw [h] at hc
        exact h0 (Nat.left_eq_add.mp hc)
      simp only [transaction, ha, MulticastKind.ack, onWriteSharedNotonlyAck, he, if_neg hne]
      exact ⟨rfl, he, rfl⟩

/-- Of `c + 1` acknowledgements only the last is answered. -/
theorem answers_acks {c : ℕ} {as : List CtrlMsg} (has : ∀ a ∈ as, a.mtype = k.ack)
    (he : e.state = .sToDirty) (hc : e.replicaCount.toNat = k.lastCount + c)
    (hlen : as.length ≤ c + 1) :
    (answers r e as).map (·.mtype) = if as.length = c + 1 then [k.aggack] else [] := by
  induction as generalizing e c with
  | nil => rfl
  | cons a as ih =>
      have ha := has a List.mem_cons_self
      cases c with
      | zero =>
          have hnil : as = [] := List.length_eq_zero_iff.mp (by simpa using hlen)
          rw [hnil, answers, ack_last ha he hc]
          rfl
      | succ c =>
          obtain ⟨hout, hst, hcount⟩ := ack_more (r := r) ha he hc (Nat.succ_ne_zero c)
          have hc' : (e.replicaCount - 1).toNat = k.lastCount + c := by
            rw [count_pred hc (by omega)]; omega
          simp only [answers, hout, List.length_cons, Nat.add_right_cancel_iff]
          exact ih (fun a h => has a (List.mem_cons_of_mem _ h)) hst (hcount ▸ hc')
            (Nat.le_of_succ_le_succ hlen)

end Acks

/-! ## The whole -/

section Whole

variable {k : MulticastKind} {m : CtrlMsg} {e : DirDataE}

/-- More than one replica in the bitmap of an upgrade that is not alone. -/
theorem Opens.two_le_card (ho : Opens .writeShared m e) : 2 ≤ e.bits.card := by
  obtain ⟨-, -, hq, n, hne, hn⟩ := ho
  exact Finset.one_lt_card.mpr
    ⟨_, DirDataE.mem_bits.mpr hn, _, DirDataE.mem_bits.mpr hq, hne⟩

/-- A multicast with any sharer has an order to send. -/
theorem Opens.lastCount_le (ho : Opens k m e) (hpos : 0 < e.bits.card) :
    k.lastCount ≤ e.bits.card := by
  cases k with
  | writeMiss => exact hpos
  | writeShared => exact ho.two_le_card

/-- The transaction leaves the registers ready for the first order, and an entry whose count is
still that of the sharers. -/
theorem Opens.start (ho : Opens k m e) (hc : e.replicaCount.toNat = e.bits.card) (r : DirRegs) :
    (transaction r m e).regs = ⟨true, latch m e, e⟩ ∧
      (transaction r m e).dirData.state = .sToDirty ∧
      (transaction r m e).dirData.replicaCount = e.replicaCount := by
  obtain ⟨hm, hs, hb⟩ := id ho
  cases k with
  | writeMiss =>
      simp only [transaction, hm, MulticastKind.request, onWriteMiss, hs, latch_reqClineNodeID,
        show e.dirGblockBitmap m.reqClineNodeID = false from hb, if_true]
      exact ⟨rfl, rfl, rfl⟩
  | writeShared =>
      have hgt : e.replicaCount > 1 := by
        have := ho.two_le_card
        rw [gt_iff_lt, BitVec.lt_def, hc]
        exact this
      simp only [transaction, hm, MulticastKind.request, onWriteShared, hs, latch_reqClineNodeID,
        show e.dirGblockBitmap m.reqClineNodeID = true from hb.1, Bool.true_eq_false, if_false,
        hgt, if_true]
      exact ⟨rfl, rfl, rfl⟩

theorem Opens.sending (ho : Opens k m e) :
    Sending k m e ⟨true, latch m e, e⟩ (descending e.dirGblockBitmap) :=
  ⟨rfl, rfl, ho.2.1, rfl, rfl, fun _ => mem_descending.mp⟩

/-- The orders of a whole multicast, node by node. -/
theorem orders_filter (n : NodeId) :
    (orders k m e (descending e.dirGblockBitmap)).filter (·.dstNodeId = n) =
      if e.dirGblockBitmap n = true ∧ n ≠ m.reqClineNodeID then [orderTo k m e n] else [] := by
  have hnd : ((descending e.dirGblockBitmap).filter (· != m.reqClineNodeID)).Nodup :=
    (descending_nodup _).filter _
  have hmem : n ∈ (descending e.dirGblockBitmap).filter (· != m.reqClineNodeID) ↔
      e.dirGblockBitmap n = true ∧ n ≠ m.reqClineNodeID := by
    rw [List.mem_filter, mem_descending, bne_iff_ne]
  rw [orders, List.filter_map]
  show List.map _ (List.filter (fun k => decide (k = n)) _) = _
  rw [List.filter_eq, hnd.count]
  simp only [hmem]
  split <;> rfl

/-- There are as many orders as the count says. -/
theorem orders_length (ho : Opens k m e) :
    (orders k m e (descending e.dirGblockBitmap)).length + k.lastCount = e.bits.card + 1 := by
  rw [orders, List.length_map, ← length_descending]
  cases k with
  | writeMiss =>
      rw [List.filter_eq_self.mpr]
      · rfl
      · intro n hn
        refine bne_iff_ne.mpr fun h => ?_
        rw [mem_descending, h, ho.2.2] at hn
        cases hn
  | writeShared =>
      have hq := mem_descending.mpr ho.2.2.1
      rw [← (descending_nodup e.dirGblockBitmap).erase_eq_filter, List.length_erase_of_mem hq]
      have := List.length_pos_of_mem hq
      show _ - 1 + 2 = _
      omega

/-- A multicast is exact.  From the tick that opens it, the loop takes up no message and no entry
before it ends, which it does after as many ticks without an `INIT_DIR` message as there are
sharers, and one more; by then it has sent one order to each sharer but the requester and none
to another node; and, if the block had a sharer, of as many acknowledgements the last and no
other is answered. -/
theorem multicast_exact {s : DirStage} {ms : List CtrlMsg} {es : List DirDataE} (u : Uninit)
    (hi : s.dirDataInit = []) (hf : s.regs.regCopyFlag = false) (hm : s.ctrlMsgRIn = m :: ms)
    (he : s.dirDataIn = e :: es) (ho : Opens k m e)
    (hc : e.replicaCount.toNat = e.bits.card) :
    (s.tick u).regs.regCopyFlag = true ∧
    ∀ acts, (s.tick u).Copying acts →
      ((s.tick u).run acts).ctrlMsgRIn = ms ++ ctrlMsgsIn acts ∧
      ((s.tick u).run acts).dirDataIn = es ++ dirDataIn acts ∧
      (s.tick u).passes acts ≤ e.bits.card + 1 ∧
      (((s.tick u).run acts).regs.regCopyFlag = false ↔
        (s.tick u).passes acts = e.bits.card + 1) ∧
      ∃ sent, ((s.tick u).run acts).ctrlMsgOut = (s.tick u).ctrlMsgOut ++ sent ∧
        (((s.tick u).run acts).regs.regCopyFlag = false →
          (∀ n, sent.filter (·.dstNodeId = n) =
            if e.dirGblockBitmap n = true ∧ n ≠ m.reqClineNodeID then [orderTo k m e n] else []) ∧
          ∃ e', (s.tick u).dirDataOut = s.dirDataOut ++ [e'] ∧
            (0 < e.bits.card → ∀ r as, (∀ a ∈ as, a.mtype = k.ack) → as.length ≤ sent.length →
              (answers r e' as).map (·.mtype) =
                if as.length = sent.length then [k.aggack] else [])) := by
  obtain ⟨hregs, hst, hcount⟩ := ho.start hc s.regs
  rw [DirStage.tick_take hi hf hm he]
  have hs : Sending k m e (s.take m ms e es).regs (descending e.dirGblockBitmap) :=
    (show (s.take m ms e es).regs = _ from hregs) ▸ ho.sending
  refine ⟨hs.flag, fun acts hcopy => ?_⟩
  obtain ⟨hmsgs, hents⟩ := hcopy.inputs
  obtain ⟨hle, hout, hflag⟩ := hcopy.sent ho hs
  rw [length_descending] at hle hflag
  refine ⟨hmsgs, hents, hle, hflag, _, hout, fun hdone => ?_⟩
  rw [hflag.mp hdone, List.take_of_length_le (by rw [length_descending]; exact Nat.le_succ _)]
  refine ⟨orders_filter, _, rfl, fun hpos r as has hlen => ?_⟩
  -- one acknowledgement for each order brings the count down to the one that is answered
  obtain ⟨c, hlen'⟩ : ∃ c, (orders k m e (descending e.dirGblockBitmap)).length = c + 1 :=
    Nat.exists_eq_succ_of_ne_zero (by
      have := orders_length ho
      have := ho.lastCount_le hpos
      omega)
  have hlast : e.replicaCount.toNat = k.lastCount + c := by
    have := orders_length ho
    omega
  rw [hlen'] at hlen
  simp only [hlen']
  exact answers_acks has hst (hcount ▸ hlast) hlen

end Whole

/-- A request of node 0. -/
def fromNodeZero (t : RawMessageType) : CtrlMsg where
  mtype := t
  reqClineNodeID := 0
  reqClineAppThreadID := 0
  reqClineAddr := 0
  reqClineIndex := 0
  clineTag := 0
  agentClineNodeID := 0
  agentClineAddr := 0
  dirGblockAddr := 0
  dirGblockIndex := 0
  dirGblockBitmap := fun _ => false
  dirGblockNodeID := 0
  dataMsgLength := 0
  dstThreadType := .app
  dstNodeId := 0
  lockPosition := 0

/-- A shared block whose replicas are those of `bitmap`. -/
def sharedEntry (bitmap : NodeId → Bool) (count : BitVec 8) : DirDataE where
  dirGblockAddr := 0
  dirGblockIndex := 0
  dirGblockBitmap := bitmap
  state := .sShared
  replicaCount := count
  agentClineAddr := fun n => .ofNat 64 (4096 * n)

/-- The stage as it is about to take up `m` with `e`. -/
def DirStage.holding (m : CtrlMsg) (e : DirDataE) : DirStage where
  regs := ⟨false, m, e⟩
  dirDataInit := []
  ctrlMsgRIn := [m]
  dirDataIn := [e]
  ctrlMsgOut := []
  dirDataOut := []
  ctrlMsgWOut := []

/-- What the local variables of `INIT_DIR` hold does not matter to a multicast. -/
def anyUninit : Uninit :=
  ⟨fromNodeZero .initDir, fun _ => 0⟩

/-- Node 0 upgrades a block that nodes 0, 3 and 5 share: four ticks later both others have their
order, and their two acknowledgements are answered once. -/
theorem multicast_exact_three :
    let s := DirStage.holding (fromNodeZero .rWriteShared) (sharedEntry (· ∈ [0, 3, 5]) 3)
    let ticks := List.replicate 4 (StageAction.tick anyUninit)
    ((s.tick anyUninit).run ticks).regs.regCopyFlag = false ∧
      (((s.tick anyUninit).run ticks).ctrlMsgOut.map (·.dstNodeId)) = [5, 3] := by
  have h := (multicast_exact (k := .writeShared) (m := fromNodeZero .rWriteShared)
    (e := sharedEntry (· ∈ [0, 3, 5]) 3)
    (s := .holding (fromNodeZero .rWriteShared) (sharedEntry (· ∈ [0, 3, 5]) 3)) anyUninit rfl rfl rfl rfl
    ⟨rfl, rfl, rfl, 3, by decide, rfl⟩ (by decide)).2
    (List.replicate 4 (StageAction.tick anyUninit))
    ⟨by decide, by decide, by decide, by decide, trivial⟩
  exact ⟨h.2.2.2.1.mpr (by decide), by decide⟩

/-- A shared block without a sharer would break the balance: its write miss sends no order, and
while the first 255 acknowledgements come in, none is answered. -/
theorem multicast_to_nobody :
    let m := fromNodeZero .rWriteMiss
    let e := sharedEntry (fun _ => false) 0
    let s := DirStage.holding m e
    let s' := (s.tick anyUninit).run [.tick anyUninit]
    Opens .writeMiss m e ∧ e.replicaCount.toNat = e.bits.card ∧
      s'.regs.regCopyFlag = false ∧ s'.ctrlMsgOut = (s.tick anyUninit).ctrlMsgOut ∧
      ∀ e' ∈ (s.tick anyUninit).dirDataOut, ∀ r as,
        (∀ a ∈ as, a.mtype = MulticastKind.writeMiss.ack) → as.length ≤ 255 →
          answers r e' as = [] := by
  refine ⟨⟨rfl, rfl, rfl⟩, by decide, by decide, by decide, fun e' he' r as has hlen => ?_⟩
  have he : e' = (transaction r (fromNodeZero .rWriteMiss)
      (sharedEntry (fun _ => false) 0)).dirData := List.mem_singleton.mp he'
  cases as with
  | nil => rfl
  | cons a as =>
      -- the first one takes the count from 0 to 255
      have ha := has a List.mem_cons_self
      have hfirst : (transaction r a e').out = none ∧
          (transaction r a e').dirData.state = .sToDirty ∧
          (transaction r a e').dirData.replicaCount.toNat = 1 + 254 := by
        rw [he]
        simp only [transaction, ha, MulticastKind.ack]
        exact ⟨rfl, rfl, rfl⟩
      obtain ⟨hout, hst, hcount⟩ := hfirst
      have hrest := answers_acks (k := .writeMiss) (r := r)
        (fun b hb => has b (List.mem_cons_of_mem a hb)) hst hcount (Nat.le_of_lt hlen)
      rw [if_neg (Nat.ne_of_lt hlen), List.map_eq_nil_iff] at hrest
      rw [answers, hout, hrest]
      rfl

end Ting
