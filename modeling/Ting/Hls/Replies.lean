/-
# `Ting.Hls.Replies` — which answers a request can get, and what a refusal says

Every message derived from a request is one that a request of its type leads to
(`derivedFrom`), so its thread's switch has a case for every answer.  The other results are
about single steps: no internal step takes a downgrade back; the directory credits a node
with a block only on behalf of a request of that node that is still unanswered; and when it
refuses a request with `BITMAP_CHECK_FAIL` it holds, of a node that misses the block, that the
node owns it, and of a node that upgrades or evicts it, that it does not.
-/
import Ting.Hls.Tokens

namespace Ting

open Total Fabric

/-! ## Types -/

namespace RawMessageType

/-- The answers to each type of request. -/
def isReplyTo (k : RawMessageType) : RawMessageType → Bool
  | dir2AppMCheckFail | dir2AppBitmapCheckFail => k.isRequest
  | dir2AppReadMissAckdata | agent2AppReadMissDirtyAckdata => k = rReadMiss
  | dir2AppWriteMissAckdata | agent2AppWriteMissDirtyAckdata | dir2AppWriteMissShareddata
  | dir2AppWriteMissSharedAggackAck => k = rWriteMiss
  | dir2AppWriteSharedOnlyack | dir2AppWriteSharedNotonlyAggackAck => k = rWriteShared
  | dir2AppEvictSharedAck => k = rEvictShared
  | dir2AppEvictDirtyAck => k = rEvictDirty
  | _ => false

/-- The messages each type of request leads to. -/
def derivedFrom (k : RawMessageType) : RawMessageType → Bool
  | rReadMiss | dir2AgentReadMissDirty | agent2DirReadMissDirtyAckdata => k = rReadMiss
  | rWriteMiss | dir2AgentWriteMissDirty | dir2AgentWriteMissShared
  | agent2DirWriteMissDirtyAck | agent2DirWriteMissSharedAck => k = rWriteMiss
  | rWriteShared | dir2AgentWriteSharedNotonly | agent2DirWriteSharedNotonlyAck => k = rWriteShared
  | rEvictShared => k = rEvictShared
  | rEvictDirty => k = rEvictDirty
  | t => k.isReplyTo t

/-- The two requests of a node that does not hold the block. -/
def isMiss : RawMessageType → Bool
  | rReadMiss | rWriteMiss => true
  | _ => false

end RawMessageType

/-- The request that starts a transaction. -/
def TxnKind.request : TxnKind → RawMessageType
  | readMissDirty => .rReadMiss
  | writeMissDirty | writeMissShared => .rWriteMiss
  | writeShared => .rWriteShared

/-- A ledger of the messages of block `b` that their request does not lead to. -/
def Ledger.mismatched (b : Block) : Ledger b where
  flight f := if f.packet.ticket.kind.derivedFrom f.packet.msg.mtype then 0
    else ind (f.packet.msg.block = b)
  cc _ := 0
  dir _ := 0
  entry := DirDataE.pends fun T => T.kind.request ≠ T.ticket.kind
  flight_local f h := by
    split
    · rfl
    · exact ind_of_not h
  cc_local := cc_left_out b
  dir_local := dir_left_out b

section Kinds

variable {s s' : Fabric} {b : Block}

theorem Ledger.mismatched_flight {f : Flight}
    (h : f.packet.ticket.kind.derivedFrom f.packet.msg.mtype = true) :
    (mismatched b).flight f = 0 :=
  if_pos h

theorem Ledger.mismatched_entry (e : DirDataE) (T : Option Txn) :
    (mismatched b).entry e T = e.pends (fun T => T.kind.request ≠ T.ticket.kind) T := rfl

theorem Txn.Asks.request {k : Ticket} {r : DirRegs} {m : CtrlMsg} {e : DirDataE} {t : DirTick}
    (h : (Txn.start k m e).Asks r m e t) : (Txn.start k m e).kind.request = m.mtype := by
  cases h with
  | owner hk o a ho hregs hout hs hbits =>
      revert hk
      show (TxnKind.of m.mtype e.state).isShared = false → (TxnKind.of m.mtype e.state).request = _
      rw [hs]
      cases m.mtype <;> intro hk <;> first | rfl | cases hk
  | sharers hk hs hm hb hregs hout hb' =>
      rw [hm]
      cases hkind : (Txn.start k m e).kind <;> rw [hkind] at hk <;> first | (cases hk; done) | rfl

theorem Answers.derived {m : CtrlMsg} {e e' : DirDataE} {ty : RawMessageType}
    (h : Answers m e e' ty) (hm : m.mtype.isRequest) : m.mtype.derivedFrom ty = true := by
  cases h with
  | mCheckFail hs he | bitmapCheckFail hs hb he => exact hm
  | readMiss hm hs hb hs' hb' | writeMiss hm hs hb hs' hb' | writeSharedOnly hm hs hb hs' hb'
  | evictShared hm hs hb hs' hb' | evictDirty hm hs hb hs' hb' => rw [hm]; rfl

theorem TxnKind.derived (k : TxnKind) : k.request.derivedFrom k.order = true ∧
    k.request.derivedFrom k.ack = true ∧ k.request.derivedFrom k.grant = true := by
  cases k <;> exact ⟨rfl, rfl, rfl⟩

/-- As long as nothing is mismatched, a pending transaction is of the kind its request asks
for. -/
theorem Fabric.Belongs.request {k : Ticket} {m : CtrlMsg} {T : Txn} (hT : s.Belongs k m T)
    (h0 : (Ledger.mismatched m.block).value s = 0) : k.kind = T.kind.request := by
  have hle := (Ledger.mismatched m.block).entry_le s
  rw [h0, Ledger.mismatched_entry, hT.1] at hle
  by_contra hne
  have ht : (s.dir m.block).state.isTransient := by
    rw [hT.2.1]
    exact TxnKind.state_isTransient _
  have : (s.dir m.block).pends (fun T => T.kind.request ≠ T.ticket.kind) (some T) = 1 :=
    ind_of ⟨ht, by simpa [hT.2.2.1] using Ne.symm hne⟩
  omega

/-- Internal steps derive nothing that does not belong to its request. -/
theorem BlockStep.mismatched (h : BlockStep b s s') (h0 : (Ledger.mismatched b).value s = 0) :
    (Ledger.mismatched b).value s' = 0 := by
  cases h with
  | elsewhere h => rw [h, h0]
  | answered p e ty hb hin hm hk hr hans h =>
      have hl := h (.mismatched b)
      have hle := (Ledger.mismatched b).entry_le s
      have hout : (Ledger.mismatched b).flight ⟨.net, ⟨p.ticket, (latch p.msg (s.dir b)).toApp ty⟩⟩
          = 0 := Ledger.mismatched_flight (by
        show p.ticket.kind.derivedFrom ty = true
        rw [hk]
        exact hans.derived hm)
      rw [Ledger.mismatched_entry, Ledger.mismatched_entry, hans.pends, hout] at hl
      rw [Ledger.mismatched_entry] at hle
      omega
  | opened p t hb hin hm hk hr hstable htracks hasks h =>
      have hl := h (.mismatched b)
      have hreq := hasks.request
      have hnew : (Ledger.mismatched b).entry t.dirData
          (some (Txn.start p.ticket p.msg (s.dir b))) = 0 := by
        rw [Ledger.mismatched_entry, DirDataE.pends_tracked htracks]
        refine ind_of_not fun hc => ?_
        simp only [ne_eq, decide_not, Bool.not_eq_true', decide_eq_false_iff_not] at hc
        exact hc (hreq.trans hk.symm)
      have hsent : (Ledger.mismatched b).sent p.ticket t.out = 0 := by
        cases hasks with
        | owner hk' a' b' ho hregs hout =>
            rw [hout]
            refine Ledger.mismatched_flight ?_
            show p.ticket.kind.derivedFrom (TxnKind.order _) = true
            rw [hk, ← hreq]
            exact (TxnKind.derived _).1
        | sharers hk' hs hm' hb' hregs hout =>
            rw [hout]
            split_ifs with hkind
            · refine Ledger.mismatched_flight ?_
              show p.ticket.kind.derivedFrom .dir2AppWriteMissShareddata = true
              rw [hk, ← hreq, hkind]
              rfl
            · rfl
      have hdir : (Ledger.mismatched b).dir t.regs = 0 := rfl
      omega
  | acked p T t hb hin hT hm htracks ha hack h =>
      subst hb
      have hl := h (.mismatched p.msg.block)
      have hle := (Ledger.mismatched p.msg.block).entry_le s
      rw [hT.1] at hle
      have hreq := hT.request h0
      have hsent : (Ledger.mismatched p.msg.block).sent p.ticket t.out = 0 := by
        cases hack with
        | last hmiss hstate hbits hcons hout =>
            rw [hout]
            split_ifs
            · refine Ledger.mismatched_flight ?_
              show p.ticket.kind.derivedFrom T.kind.grant = true
              rw [hreq]
              exact T.kind.derived.2.2
            · rfl
        | more hk htracks' hstate hout => rw [hout]; rfl
      have hnew : (Ledger.mismatched p.msg.block).entry t.dirData (some (T.observe p.msg t.out))
          = 0 := by
        refine ind_of_not fun hc => ?_
        have hne : decide (T.kind.request ≠ T.ticket.kind) = true := hc.2
        rw [decide_eq_true_eq, hT.2.2.1] at hne
        exact hne hreq.symm
      omega
  | delivered p T a hb hin hT hm hk h =>
      subst hb
      have hl := h (.mismatched p.msg.block)
      have hreq := hT.request h0
      rw [Ledger.mismatched_flight (f := ⟨.sys _ a, _⟩), Ledger.mismatched_flight (f := ⟨.net, ⟨_,
        CtrlMsg.toHome _ _⟩⟩)] at hl
      · omega
      · show p.ticket.kind.derivedFrom T.kind.ack = true
        rw [hreq]
        exact T.kind.derived.2.1
      · show p.ticket.kind.derivedFrom p.msg.mtype = true
        rw [hreq, hm]
        exact T.kind.derived.1
  | shipped p T a hb hin hT hm hk h =>
      subst hb
      have hl := h (.mismatched p.msg.block)
      have hreq := hT.request h0
      have hcc : (Ledger.mismatched p.msg.block).cc ⟨true, p.msg.forThread .sys⟩ = 0 := rfl
      rw [Ledger.mismatched_flight (f := ⟨.sys _ a, _⟩), Ledger.mismatched_flight (f := ⟨.net, ⟨_,
        CtrlMsg.toRequester _ _⟩⟩), hcc] at hl
      · omega
      · show p.ticket.kind.derivedFrom T.kind.grant = true
        rw [hreq]
        exact T.kind.derived.2.2
      · show p.ticket.kind.derivedFrom p.msg.mtype = true
        rw [hreq, hm]
        exact T.kind.derived.1
  | passed p hb hin hm h =>
      have hl := h (.mismatched b)
      change _ + (if p.ticket.kind.derivedFrom p.msg.mtype = true then 0 else ind (p.msg.block = b))
        = _ + (if p.ticket.kind.derivedFrom p.msg.mtype = true then 0 else ind (p.msg.block = b))
        at hl
      omega
  | shipAcked k r T hb hf hT hm hk h =>
      subst hb
      have hl := h (.mismatched r.regCtrlMsg.block)
      rw [Ledger.mismatched_flight (f := ⟨.net, ⟨k, CtrlMsg.toHome _ _⟩⟩)] at hl
      · omega
      · show k.kind.derivedFrom T.kind.ack = true
        rw [hT.request h0]
        exact T.kind.derived.2.1
  | copied k r t T hb hf hT hk hcopy h =>
      subst hb
      have hl := h (.mismatched r.regCtrlMsg.block)
      have hdir : (Ledger.mismatched r.regCtrlMsg.block).dir t.1 = 0 := rfl
      have hsent : (Ledger.mismatched r.regCtrlMsg.block).sent k t.2 = 0 := by
        cases hcopy with
        | stop hnone => rfl
        | skip hn => rfl
        | order n a hn hne =>
            refine Ledger.mismatched_flight ?_
            show k.kind.derivedFrom T.kind.order = true
            rw [hT.request h0]
            exact T.kind.derived.1
      omega

end Kinds

/-! ## Headers -/

/-- A ledger of what carries a header without property `P` about block `b`. -/
def Ledger.flawed (P : Header → Bool) (b : Block) : Ledger b where
  flight f := if P f.packet.msg.header then 0 else ind (f.packet.msg.block = b)
  cc _ := 0
  dir _ := 0
  entry := DirDataE.pends fun T => !P T.header
  flight_local f h := by
    split
    · rfl
    · exact ind_of_not h
  cc_local := cc_left_out b
  dir_local := dir_left_out b

section Headers

variable {s s' : Fabric} {b : Block} {P : Header → Bool}

theorem Ledger.flawed_of {loc : Loc} {k : Ticket} {m : CtrlMsg} (h : P m.header = true) :
    (flawed P b).flight ⟨loc, ⟨k, m⟩⟩ = 0 :=
  if_pos h

theorem Ledger.flawed_sent {k : Ticket} {out : Option CtrlMsg}
    (h : ∀ m, out = some m → P m.header = true) : (flawed P b).sent k out = 0 := by
  cases out with
  | none => rfl
  | some m => exact flawed_of (h m rfl)

theorem Ledger.flawed_entry (e : DirDataE) (T : Option Txn) :
    (flawed P b).entry e T = e.pends (fun T => !P T.header) T := rfl

/-- As long as nothing is flawed, a message of the block is not. -/
theorem Ledger.flawed_zero (h0 : (flawed P b).value s = 0) {f : Flight} (hf : f ∈ s.flights)
    (hb : f.packet.msg.block = b) : P f.packet.msg.header = true := by
  have hle := (flawed P b).flight_le hf
  by_contra hne
  have hone : (flawed P b).flight f = 1 := (if_neg hne).trans (ind_of hb)
  omega

/-- Nor is a message that belongs to the pending transaction. -/
theorem Fabric.Belongs.unflawed {k : Ticket} {m : CtrlMsg} {T : Txn} (hT : s.Belongs k m T)
    (hb : m.block = b) (h0 : (Ledger.flawed P b).value s = 0) : P m.header = true := by
  subst hb
  have hle := (Ledger.flawed P m.block).entry_le s
  rw [h0, Ledger.flawed_entry, hT.1] at hle
  by_contra hne
  have ht : (s.dir m.block).state.isTransient := by
    rw [hT.2.1]
    exact TxnKind.state_isTransient _
  have : (s.dir m.block).pends (fun T => !P T.header) (some T) = 1 :=
    ind_of ⟨ht, by simpa [hT.2.2.2] using hne⟩
  omega

theorem Txn.start_header (k : Ticket) (m : CtrlMsg) (e : DirDataE) :
    (Txn.start k m e).header = m.header := rfl

/-- Whatever a step sends has the header of what it was sent for. -/
theorem BlockStep.flawed (h : BlockStep b s s') (h0 : (Ledger.flawed P b).value s = 0) :
    (Ledger.flawed P b).value s' = 0 := by
  cases h with
  | elsewhere h => rw [h, h0]
  | answered p e ty hb hin hm hk hr hans h =>
      have hl := h (.flawed P b)
      have hP : P p.msg.header = true := Ledger.flawed_zero h0 hin hb
      have hle := (Ledger.flawed P b).entry_le s
      rw [Ledger.flawed_entry, Ledger.flawed_entry, hans.pends,
        Ledger.flawed_of (m := (latch p.msg (s.dir b)).toApp ty) hP] at hl
      rw [Ledger.flawed_entry] at hle
      omega
  | opened p t hb hin hm hk hr hstable htracks hasks h =>
      have hl := h (.flawed P b)
      have hP : P p.msg.header = true := Ledger.flawed_zero h0 hin hb
      have hnew : (Ledger.flawed P b).entry t.dirData
          (some (Txn.start p.ticket p.msg (s.dir b))) = 0 := by
        rw [Ledger.flawed_entry, DirDataE.pends_tracked htracks]
        exact ind_of_not (by rw [Txn.start_header, hP]; decide)
      have hsent : (Ledger.flawed P b).sent p.ticket t.out = 0 :=
        Ledger.flawed_sent fun m hm' => by rw [hasks.out_header hm', hP]
      have hdir : (Ledger.flawed P b).dir t.regs = 0 := rfl
      omega
  | acked p T t hb hin hT hm htracks ha hack h =>
      have hl := h (.flawed P b)
      have hP : P p.msg.header = true := hT.unflawed hb h0
      have hnew : (Ledger.flawed P b).entry t.dirData (some (T.observe p.msg t.out)) = 0 :=
        ind_of_not fun hc => by
          have hne : (!P T.header) = true := hc.2
          rw [hT.2.2.2, hP] at hne
          cases hne
      have hsent : (Ledger.flawed P b).sent p.ticket t.out = 0 :=
        Ledger.flawed_sent fun m hm' => by rw [hack.out_header hm', hP]
      omega
  | delivered p T a hb hin hT hm hk h =>
      have hl := h (.flawed P b)
      have hP : P p.msg.header = true := hT.unflawed hb h0
      rw [Ledger.flawed_of (m := p.msg.forThread .sys) hP,
        Ledger.flawed_of (m := (p.msg.forThread .sys).toHome T.kind.ack) hP] at hl
      omega
  | shipped p T a hb hin hT hm hk h =>
      have hl := h (.flawed P b)
      have hP : P p.msg.header = true := hT.unflawed hb h0
      have hcc : (Ledger.flawed P b).cc ⟨true, p.msg.forThread .sys⟩ = 0 := rfl
      rw [Ledger.flawed_of (m := p.msg.forThread .sys) hP,
        Ledger.flawed_of (m := (p.msg.forThread .sys).toRequester T.kind.grant) hP, hcc] at hl
      omega
  | passed p hb hin hm h =>
      have hl := h (.flawed P b)
      have hP : P p.msg.header = true := Ledger.flawed_zero h0 hin hb
      rw [Ledger.flawed_of (m := p.msg.forThread .app) hP] at hl
      omega
  | shipAcked k r T hb hf hT hm hk h =>
      have hl := h (.flawed P b)
      have hP : P r.regCtrlMsg.header = true := hT.unflawed hb h0
      rw [Ledger.flawed_of (m := r.regCtrlMsg.toHome T.kind.ack) hP] at hl
      omega
  | copied k r t T hb hf hT hk hcopy h =>
      have hl := h (.flawed P b)
      have hP : P r.regCtrlMsg.header = true := hT.unflawed hb h0
      have hdir : (Ledger.flawed P b).dir t.1 = 0 := rfl
      have hsent : (Ledger.flawed P b).sent k t.2 = 0 :=
        Ledger.flawed_sent fun m hm => by rw [FabricInv.CopyStepped.out_header hcopy hm, hP]
      omega

end Headers

/-! ## Single steps -/

section Steps

variable {s s' : Fabric} {b : Block} {n : NodeId}

/-- No internal step takes a downgrade back. -/
theorem BlockStep.downgrading (h : BlockStep b s s') : s.downgrading n b ≤ s'.downgrading n b := by
  unfold Fabric.downgrading
  have hmeant : ∀ f : Flight, (Ledger.meant (·.downgrades) n b).flight f
      = f.packet.msg.forAgent (·.downgrades) n b := fun _ => rfl
  cases h with
  | elsewhere h => rw [h]
  | answered p e ty hb hin hm hk hr hans h =>
      have hl := h (.meant (·.downgrades) n b)
      rw [hmeant ⟨.net, p⟩, CtrlMsg.forAgent_zero (by decide) hm] at hl
      change _ + (0 + 0) = _ + (_ + 0) at hl
      omega
  | opened p t hb hin hm hk hr hstable htracks hasks h =>
      have hl := h (.meant (·.downgrades) n b)
      rw [hmeant ⟨.net, p⟩, CtrlMsg.forAgent_zero (by decide) hm] at hl
      change _ + (0 + 0) = _ + (_ + 0 + 0) at hl
      omega
  | acked p T t hb hin hT hm htracks ha hack h =>
      have hl := h (.meant (·.downgrades) n b)
      have hin' : p.msg.mtype.isAck = true := hm ▸ FabricInv.ack_isAck _
      rw [hmeant ⟨.net, p⟩, CtrlMsg.forAgent_zero (by decide) hin'] at hl
      change _ + (0 + 0) = _ + (_ + 0) at hl
      omega
  | delivered p T a hb hin hT hm hk h | shipped p T a hb hin hT hm hk h =>
      have hl := h (.meant (·.downgrades) n b)
      change _ + p.msg.forAgent (·.downgrades) n b = _ + (p.msg.forAgent (·.downgrades) n b + _) at hl
      omega
  | passed p hb hin hm h =>
      have hl := h (.meant (·.downgrades) n b)
      change _ + p.msg.forAgent (·.downgrades) n b = _ + p.msg.forAgent (·.downgrades) n b at hl
      omega
  | shipAcked k r T hb hf hT hm hk h | copied k r t T hb hf hT hk hcopy h =>
      have hl := h (.meant (·.downgrades) n b)
      change _ + 0 = _ + _ at hl
      omega

/-- A request, or an order to a dirty owner, stands for the answer of its origin. -/
theorem Ledger.seeking_of_flight {p : Packet} (hin : ⟨.net, p⟩ ∈ s.flights)
    (hm : (p.msg.mtype.isRequest || p.msg.mtype.takesWrite) = true) :
    1 ≤ (seeking p.origin).value s := by
  have hle := (seeking p.origin).flight_le hin
  have hone : (seeking p.origin).flight ⟨.net, p⟩ = 1 := by
    show (if (true && (p.msg.mtype.isRequest || p.msg.mtype.takesWrite)) = true then
      p.stems p.origin else 0) + 0 = 1
    rw [hm]
    exact ind_of rfl
  omega

/-- So does a pending transaction that collects acknowledgements. -/
theorem Ledger.seeking_of_txn {T : Txn} (hT : s.txnOf T.header.block = some T)
    (ht : T.Tracks (s.dir T.header.block)) (hk : T.kind.isShared) :
    1 ≤ (seeking T.origin).value s := by
  have hle := (seeking T.origin).entry_le s
  have hone : (seeking T.origin).entry (s.dir T.header.block) (some T) = 1 := by
    show 0 + DirDataE.pends _ _ _ = 1
    rw [DirDataE.pends_tracked ht, Nat.zero_add]
    exact ind_of (by simp [hk])
  change (seeking T.origin).entry (s.dir T.header.block) (s.txnOf T.header.block) ≤ _ at hle
  rw [hT, hone] at hle
  exact hle

theorem CtrlMsg.askedBy_pos {m : CtrlMsg} (h : 0 < m.askedBy n b) :
    m.block = b ∧ m.reqClineNodeID = n := by
  by_contra hn
  rw [askedBy, ind_of_not hn] at h
  cases h

theorem CtrlMsg.forReq_pos {c : RawMessageType → Bool} {m : CtrlMsg} (h : 0 < m.forReq c n b) :
    c m.mtype = true ∧ m.block = b ∧ m.reqClineNodeID = n := by
  unfold forReq at h
  split at h
  next hc => exact ⟨hc, askedBy_pos h⟩
  next => cases h

section Weights

@[simp] theorem Ledger.owning_flight (f : Flight) :
    (Ledger.owning n b).flight f = f.packet.msg.forReq (·.isShipAck) n b := rfl

@[simp] theorem Ledger.owning_cc (r : CcRegs) : (Ledger.owning n b).cc r = r.ships n b := rfl

@[simp] theorem Ledger.owning_dir (r : DirRegs) : (Ledger.owning n b).dir r = 0 := rfl

@[simp] theorem Ledger.owning_entry (e : DirDataE) (T : Option Txn) :
    (Ledger.owning n b).entry e T = ind (n ∈ e.owned T) := rfl

@[simp] theorem Ledger.owning_sent (k : Ticket) (out : Option CtrlMsg) :
    (Ledger.owning n b).sent k out = out.elim 0 (·.forReq (·.isShipAck) n b) := by
  cases out <;> rfl

end Weights

/-- The directory credits a node with a block only on behalf of a request of that node that
has not been answered. -/
theorem BlockStep.owning_le (h : BlockStep b s s') (hgrow : s.owning n b < s'.owning n b) :
    ∃ o : Origin, o.node = n ∧ o.block = b ∧ 1 ≤ (Ledger.seeking o).value s := by
  unfold Fabric.owning at hgrow
  cases h with
  | elsewhere h => rw [h] at hgrow; exact absurd hgrow (lt_irrefl _)
  | answered p e ty hb hin hm hk hr hans h =>
      subst hb
      have hl := h (.owning n _)
      have hrights := hans.rights (n := n) (T := s.txnOf p.msg.block)
      simp only [Ledger.owning_flight, Ledger.owning_entry] at hl
      rw [CtrlMsg.forReq_zero (by decide) hm,
        CtrlMsg.forReq_zero (m := CtrlMsg.toApp _ _) (d := (·.isAnswer)) (by decide)
          hans.isAnswer] at hl
      have hpos : 0 < ((latch p.msg (s.dir p.msg.block)).toApp ty).forReq (·.isGrant) n
          p.msg.block := by omega
      exact ⟨p.origin, (CtrlMsg.forReq_pos hpos).2.2, rfl,
        Ledger.seeking_of_flight hin (by rw [hm]; rfl)⟩
  | opened p t hb hin hm hk hr hstable htracks hasks h =>
      subst hb
      have hl := h (.owning n _)
      have hrights := hasks.rights (n := n) (U := s.txnOf p.msg.block) rfl hr htracks
      have hout := fun m (hm : _ = some m) => hasks.out_type hm
      simp only [Ledger.owning_flight, Ledger.owning_entry, Ledger.owning_sent,
        Ledger.owning_dir] at hl
      rw [CtrlMsg.forReq_zero (by decide) hm, sent_forReq hout (by decide)] at hl
      omega
  | acked p T t hb hin hT hm htracks ha hack h =>
      subst hb
      have hl := h (.owning n _)
      have hrights := hack.rights (n := n) htracks hm
        (congrArg Header.reqClineNodeID hT.2.2.2).symm
      have hout := fun m (hm : _ = some m) => hack.out_type hm
      simp only [Ledger.owning_flight, Ledger.owning_entry, Ledger.owning_sent] at hl
      rw [sent_forReq hout (by decide)] at hl
      have hpos : 0 < t.out.elim 0 (·.forReq (·.isGrant) n p.msg.block) := by omega
      cases hack with
      | last hmiss hstate hbits hcons hout' =>
          rw [hout'] at hpos
          split_ifs at hpos with hk
          · have hreq := (CtrlMsg.forReq_pos hpos).2.2
            have hblock : T.header.block = p.msg.block := congrArg Header.block hT.2.2.2
            refine ⟨T.origin, ?_, hblock, Ledger.seeking_of_txn ?_ ?_ hk⟩
            · exact (congrArg Header.reqClineNodeID hT.2.2.2).trans hreq
            · rw [hblock]; exact hT.1
            · rw [hblock]; exact htracks
          · cases hpos
      | more hk htracks' hstate hout' =>
          rw [hout'] at hpos
          cases hpos
  | delivered p T a hb hin hT hm hk h =>
      have hl := h (.owning n _)
      have ho : p.msg.mtype.isOrder := hm ▸ FabricInv.order_isOrder _
      have hsys : (p.msg.forThread .sys).mtype.isOrder := ho
      have hack : ((p.msg.forThread .sys).toHome T.kind.ack).mtype.isSharedAck := by
        cases hkind : T.kind <;> rw [hkind] at hk <;> first | (cases hk; done) | rfl
      simp only [Ledger.owning_flight] at hl
      rw [CtrlMsg.forReq_zero (by decide) ho, CtrlMsg.forReq_zero (by decide) hsys,
        CtrlMsg.forReq_zero (by decide) hack] at hl
      omega
  | shipped p T a hb hin hT hm hk h =>
      subst hb
      have hl := h (.owning n _)
      have ho : p.msg.mtype.isOrder := hm ▸ FabricInv.order_isOrder _
      have hsys : (p.msg.forThread .sys).mtype.isOrder := ho
      have hans : ((p.msg.forThread .sys).toRequester T.kind.grant).mtype.isAnswer :=
        FabricInv.grant_isAnswer _
      simp only [Ledger.owning_flight, Ledger.owning_cc] at hl
      rw [CtrlMsg.forReq_zero (by decide) ho, CtrlMsg.forReq_zero (by decide) hsys,
        CtrlMsg.forReq_zero (by decide) hans] at hl
      have hpos : 0 < p.msg.askedBy n p.msg.block := by
        change _ + 0 = _ + (0 + 0 + p.msg.askedBy n p.msg.block) at hl
        omega
      refine ⟨p.origin, (CtrlMsg.askedBy_pos hpos).2, rfl, Ledger.seeking_of_flight hin ?_⟩
      cases hkind : T.kind <;> rw [hkind] at hk hm <;> first | (cases hk; done) | (rw [hm]; rfl)
  | passed p hb hin hm h =>
      have hl := h (.owning n _)
      change _ + p.msg.forReq (·.isShipAck) n b = _ + p.msg.forReq (·.isShipAck) n b at hl
      omega
  | shipAcked k r T hb hf hT hm hk h =>
      subst hb
      have hl := h (.owning n _)
      have hships : (r.regCtrlMsg.toHome T.kind.ack).forReq (·.isShipAck) n r.regCtrlMsg.block
          = r.ships n r.regCtrlMsg.block := by
        have hack : (r.regCtrlMsg.toHome T.kind.ack).mtype.isShipAck := by
          cases hkind : T.kind <;> rw [hkind] at hk <;> first | (cases hk; done) | rfl
        rw [CtrlMsg.forReq, if_pos hack, CcRegs.ships, if_pos hf]
        rfl
      simp only [Ledger.owning_flight, Ledger.owning_cc, hships] at hl
      omega
  | copied k r t T hb hf hT hk hcopy h =>
      have hl := h (.owning n _)
      have hout : ∀ m, t.2 = some m → m.mtype.isSharedOrder = true :=
        fun m hm => hcopy.out_type hk hm
      simp only [Ledger.owning_dir, Ledger.owning_sent] at hl
      rw [sent_forReq hout (by decide)] at hl
      omega

/-- While the entry of a block is stable, the directory owes no acknowledgement for it, so its
bitmap says who owns it. -/
theorem FabricInv.owning_stable (h : FabricInv s) (hs : (s.dir b).state.isTransient = false) :
    s.owning n b = ind (n ∈ (s.dir b).bits) := by
  have hfl : total (Ledger.owning n b).flight s.flights = 0 := by
    refine total_eq_zero fun f hf => ?_
    by_contra hne
    obtain ⟨hack, hb, -⟩ := CtrlMsg.forReq_pos (Nat.pos_of_ne_zero hne)
    have hnet : f.loc = .net := by
      have hroute := h.routed f hf
      unfold Flight.Routed at hroute
      cases hl : f.loc <;> simp only [hl] at hroute
      · rfl
      · exact absurd hroute.1 (by revert hack; generalize f.packet.msg.mtype = t; revert t; decide)
      · exact absurd hroute.1 (by revert hack; generalize f.packet.msg.mtype = t; revert t; decide)
    have hdebt : f.packet.msg.isDebt = true := by
      unfold CtrlMsg.isDebt
      revert hack
      generalize f.packet.msg.mtype = t
      revert t
      decide
    have := h.mem_missing hf hnet hdebt
    rw [hb, missing_of_stable hs] at this
    cases this
  have hcc : ∑ k, (Ledger.owning n b).cc (s.ccRegs k) = 0 := by
    refine Finset.sum_eq_zero fun k _ => ?_
    show (s.ccRegs k).ships n b = 0
    unfold CcRegs.ships
    split
    next hf =>
      by_contra hne
      obtain ⟨hb, -⟩ := CtrlMsg.askedBy_pos (Nat.pos_of_ne_zero hne)
      obtain ⟨T, hT, -⟩ := h.ccDebt k hf
      have ht := TxnKind.state_isTransient T.kind
      rw [← hT.2.1, hb, hs] at ht
      cases ht
    next => rfl
  have hown : (s.dir b).owned (s.txnOf b) = (s.dir b).bits := by
    refine DirDataE.owned_eq rfl fun hd => ?_
    rw [hd] at hs
    cases hs
  show total _ _ + ∑ k, _ + 0 + ind (n ∈ _) = _
  rw [hfl, hcc, hown]
  omega

/-- The revocations of block `b` that its directory has yet to send to node `n`. -/
def Ledger.owing (n : NodeId) (b : Block) : Ledger b where
  flight _ := 0
  cc _ := 0
  dir r := r.owes b n
  entry _ _ := 0
  flight_local _ _ := rfl
  cc_local := cc_left_out b
  dir_local := (Ledger.revoking n b).dir_local

theorem Ledger.owing_value (s : Fabric) :
    (Ledger.owing n b).value s = (s.dirRegs b.nodeID).owes b n := by
  show total (fun _ => 0) s.flights + ∑ k, (fun _ => 0) (s.ccRegs k) + _ + 0 = _
  rw [total_eq_zero fun _ _ => rfl, Finset.sum_eq_zero fun _ _ => rfl]
  exact Nat.zero_add _

/-- The directory comes to owe a node a revocation only when the node owns the block. -/
theorem BlockStep.owing_le (h : BlockStep b s s')
    (hgrow : (Ledger.owing n b).value s < (Ledger.owing n b).value s') : 1 ≤ s.owning n b := by
  cases h with
  | elsewhere h => rw [h] at hgrow; exact absurd hgrow (Nat.lt_irrefl _)
  | answered p e ty hb hin hm hk hr hans h =>
      have hl := h (.owing n b)
      change _ + (0 + 0) = _ + (0 + 0) at hl
      omega
  | opened p t hb hin hm hk hr hstable htracks hasks h =>
      have hl := h (.owing n b)
      have hsent : (Ledger.owing n b).sent p.ticket t.out = 0 := by
        cases t.out <;> rfl
      change _ + (0 + 0) = _ + (_ + t.regs.owes b n + 0) at hl
      rw [hsent] at hl
      have howes : 1 ≤ t.regs.owes b n := by omega
      have hbit : n ∈ (s.dir b).bits := by
        cases hasks with
        | owner hk' o a ho hregs hout =>
            rw [hregs] at howes
            have hz : (s.dirRegs b.nodeID).owes b n = 0 := (Ledger.owing n b).dir_idle hr
            omega
        | sharers hk' hs hm' hb' hregs hout =>
            rw [hregs, DirRegs.owes] at howes
            split at howes
            next hc => exact DirDataE.mem_bits.mpr hc.2.2.1
            next => cases howes
      have hle := (Ledger.owning n b).entry_le s
      rw [Ledger.owning_entry, DirDataE.owned_eq rfl (fun hd => by
        rw [hd] at hstable
        cases hstable), ind_of hbit] at hle
      exact hle
  | acked p T t hb hin hT hm htracks ha hack h =>
      have hl := h (.owing n b)
      have hsent : (Ledger.owing n b).sent p.ticket t.out = 0 := by
        cases t.out <;> rfl
      change _ + (0 + 0) = _ + (_ + 0) at hl
      omega
  | delivered p T a hb hin hT hm hk h =>
      have hl := h (.owing n b)
      change _ + 0 = _ + (0 + 0) at hl
      omega
  | shipped p T a hb hin hT hm hk h =>
      have hl := h (.owing n b)
      change _ + 0 = _ + (0 + 0 + 0) at hl
      omega
  | passed p hb hin hm h | shipAcked k r T hb hf hT hm hk h =>
      have hl := h (.owing n b)
      change _ + 0 = _ + 0 at hl
      omega
  | copied k r t T hb hf hT hk hcopy h =>
      have hl := h (.owing n b)
      have howes := hcopy.owes (n := n) (b := b) hf hk
      have hsent : (Ledger.owing n b).sent k t.2 = 0 := by
        cases t.2 <;> rfl
      change _ + r.owes b n = _ + (t.1.owes b n + _) at hl
      omega

/-- A refusal with `BITMAP_CHECK_FAIL` is on its way before a step already, or the step sends
it: then a node that misses the block owns it, any other requester does not, and no multicast
is going on. -/
theorem BlockStep.bitmapFail {o : Origin} (h : BlockStep o.block s s') (hinv : FabricInv s)
    (hfail : 1 ≤ (Ledger.descending Flight.bitmapFail o).value s') :
    1 ≤ (Ledger.descending Flight.bitmapFail o).value s ∨
      (1 ≤ (Ledger.seeking o).value s ∧ s'.owning o.node o.block = s.owning o.node o.block ∧
        (s.owning o.node o.block = if o.ticket.kind.isMiss then 1 else 0) ∧
        (Ledger.owing o.node o.block).value s' = 0) := by
  have hnot : ∀ {f : Flight} {d : RawMessageType → Bool}, d f.packet.msg.mtype = true →
      (∀ t, d t = true → t.isBitmapFail = false) → Flight.bitmapFail f = false :=
    fun hd hex => hex _ hd
  cases h with
  | elsewhere h =>
      rw [h] at hfail
      exact .inl hfail
  | answered p e ty hb hin hm hk hr hans h =>
      have hl := h (.descending Flight.bitmapFail o)
      simp only [Ledger.descending_entry, Ledger.descending_zero (hnot (f := ⟨.net, p⟩) hm (by decide))]
        at hl
      by_cases hty : ty = .dir2AppBitmapCheckFail
      · subst hty
        by_cases ho : p.origin = o
        · right
          subst ho
          have hbb : p.origin.block = p.msg.block := rfl
          cases hans with
          | bitmapCheckFail hs hbit he =>
              subst he
              have hstable : (s.dir p.msg.block).state.isTransient = false := by
                revert hs
                show serves p.msg.mtype (s.dir p.msg.block).state = true → _
                cases p.msg.mtype <;> cases (s.dir p.msg.block).state <;> intro hs <;>
                  first | rfl | cases hs
              have hown := h (.owning p.origin.node p.origin.block)
              simp only [Ledger.owning_flight, Ledger.owning_entry] at hown
              rw [CtrlMsg.forReq_zero (by decide) hm] at hown
              have howing := h (.owing p.origin.node p.origin.block)
              refine ⟨Ledger.seeking_of_flight hin (by rw [hm]; rfl), ?_, ?_, ?_⟩
              · change _ + (0 + _) = _ + (0 + _) at hown
                exact Nat.add_right_cancel hown
              · have hst := hinv.owning_stable (n := p.msg.reqClineNodeID) hstable
                have hmiss : p.ticket.kind.isMiss = !wantsBit p.msg.mtype := by
                  rw [hk]
                  cases p.msg.mtype <;> rfl
                show s.owning p.msg.reqClineNodeID p.msg.block = if p.ticket.kind.isMiss then 1 else 0
                rw [hst, hmiss]
                change (s.dir p.msg.block).dirGblockBitmap p.msg.reqClineNodeID ≠ _ at hbit
                cases hw : wantsBit p.msg.mtype <;> rw [hw] at hbit
                · exact ind_of (DirDataE.mem_bits.mpr (Bool.eq_true_of_not_eq_false hbit))
                · exact ind_of_not (DirDataE.not_mem_bits.mpr (Bool.eq_false_of_not_eq_true hbit))
              · refine (Nat.add_right_cancel howing).trans ?_
                rw [Ledger.owing_value]
                exact (Ledger.owing p.origin.node p.origin.block).dir_idle hr
        · left
          have hz : (Ledger.descending Flight.bitmapFail o).flight
              ⟨.net, ⟨p.ticket, (latch p.msg (s.dir o.block)).toApp .dir2AppBitmapCheckFail⟩⟩ = 0 := by
            rw [Ledger.descending_flight]
            split
            · exact ind_of_not ho
            · rfl
          omega
      · left
        have hz : (Ledger.descending Flight.bitmapFail o).flight
            ⟨.net, ⟨p.ticket, (latch p.msg (s.dir o.block)).toApp ty⟩⟩ = 0 := by
          refine Ledger.descending_zero ?_
          show ty.isBitmapFail = false
          cases ty <;> first | rfl | exact absurd rfl hty
        omega
  | opened p t hb hin hm hk hr hstable htracks hasks h =>
      have hl := h (.descending Flight.bitmapFail o)
      simp only [Ledger.descending_entry, Ledger.descending_dir,
        Ledger.descending_zero (hnot (f := ⟨.net, p⟩) hm (by decide)),
        Ledger.sent_descending fun m hm' =>
          hnot (f := ⟨.net, ⟨p.ticket, m⟩⟩) (hasks.out_type hm') (by decide)] at hl
      exact .inl (by omega)
  | acked p T t hb hin hT hm htracks ha hack h =>
      have hl := h (.descending Flight.bitmapFail o)
      have hin' : p.msg.mtype.isAck = true := hm ▸ FabricInv.ack_isAck _
      simp only [Ledger.descending_entry,
        Ledger.descending_zero (hnot (f := ⟨.net, p⟩) hin' (by decide)),
        Ledger.sent_descending fun m hm' =>
          hnot (f := ⟨.net, ⟨p.ticket, m⟩⟩) (hack.out_type hm') (by decide)] at hl
      exact .inl (by omega)
  | delivered p T a hb hin hT hm hk h =>
      have hl := h (.descending Flight.bitmapFail o)
      have ho : p.msg.mtype.isOrder = true := hm ▸ FabricInv.order_isOrder _
      have hsys : (p.msg.forThread .sys).mtype.isOrder = true := ho
      have hack : T.kind.ack.isBitmapFail = false := by cases T.kind <;> rfl
      rw [Ledger.descending_zero (hnot (f := ⟨.net, p⟩) ho (by decide)),
        Ledger.descending_zero (hnot (f := ⟨.sys _ a, ⟨_, p.msg.forThread .sys⟩⟩) hsys
          (by decide)),
        Ledger.descending_zero (f := ⟨.net, ⟨_, CtrlMsg.toHome _ _⟩⟩) hack] at hl
      exact .inl (by omega)
  | shipped p T a hb hin hT hm hk h =>
      have hl := h (.descending Flight.bitmapFail o)
      have ho : p.msg.mtype.isOrder = true := hm ▸ FabricInv.order_isOrder _
      have hsys : (p.msg.forThread .sys).mtype.isOrder = true := ho
      have hgrant : T.kind.grant.isBitmapFail = false := by cases T.kind <;> rfl
      rw [Ledger.descending_zero (hnot (f := ⟨.net, p⟩) ho (by decide)),
        Ledger.descending_zero (hnot (f := ⟨.sys _ a, ⟨_, p.msg.forThread .sys⟩⟩) hsys
          (by decide)),
        Ledger.descending_zero (f := ⟨.net, ⟨_, CtrlMsg.toRequester _ _⟩⟩) hgrant,
        Ledger.descending_cc] at hl
      exact .inl (by omega)
  | passed p hb hin hm h =>
      have hl := h (.descending Flight.bitmapFail o)
      change _ + (if p.msg.mtype.isBitmapFail = true then p.stems o else 0)
        = _ + (if p.msg.mtype.isBitmapFail = true then p.stems o else 0) at hl
      exact .inl (by omega)
  | shipAcked k r T hb hf hT hm hk h =>
      have hl := h (.descending Flight.bitmapFail o)
      have hack : T.kind.ack.isBitmapFail = false := by cases T.kind <;> rfl
      rw [Ledger.descending_zero (f := ⟨.net, ⟨_, CtrlMsg.toHome _ _⟩⟩) hack,
        Ledger.descending_cc] at hl
      exact .inl (by omega)
  | copied k r t T hb hf hT hk hcopy h =>
      have hl := h (.descending Flight.bitmapFail o)
      simp only [Ledger.descending_dir, Ledger.sent_descending fun m hm' =>
        hnot (f := ⟨.net, ⟨k, m⟩⟩) (hcopy.out_type hk hm') (by decide)] at hl
      exact .inl (by omega)

end Steps

end Ting
