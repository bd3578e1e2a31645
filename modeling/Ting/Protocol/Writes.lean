/-
# `Ting.Protocol.Writes` — who may write a block, end to end

Of the right to write only half a balance holds in every run: a copy that may write, and is
not flagged, is one the directory's side counts as a writer, or there is an order under way
that takes the right back (`writes_le`).  The other half, that a writer on the directory's side
has a copy that may write (`writes_ge`), needs that no agent carries out a downgrade that has
been overtaken by a newer grant.
-/
import Ting.Protocol.Rights

namespace Ting

open Total

/-! ## What the steps do to a copy -/

section Moves

variable {c c' : Copy}

theorem Turn.not_flagged (h : Turn c c') : c'.flagged = false := by
  cases h <;> rfl

/-- Of a flagged copy nothing is left. -/
theorem Turn.of_flagged (h : Turn c c') (hf : c.flagged = true) :
    c'.right = 0 ∧ c'.writeRight = 0 := by
  cases h with
  | fill | reuse | discard | lost => exact ⟨rfl, rfl⟩
  | park τ hst | evict hst | claim τ hk => cases hf
  | evicted => exact ⟨rfl, rfl⟩
  | @granted q | @denied q | @restored q =>
      change q.flag = true at hf
      simp only [Claim.settle, hf, if_true]
      exact ⟨rfl, rfl⟩

/-- What a thread does to a copy that is not flagged keeps its right to write. -/
theorem Turn.writes (h : Turn c c') (hrep : c.Replied) (hf : c.flagged = false) :
    c'.writeRight = c.writeRight := by
  cases h with
  | fill | reuse | discard => rfl
  | @park τ st hst => cases st <;> rfl
  | @evict τ st hst => cases st <;> first | rfl | exact absurd rfl hst
  | @claim τ st k hk =>
      rcases hk with ⟨rfl, hk⟩ | ⟨rfl, rfl⟩
      · show (Await.unsent).writeRight k false = 0
        cases k <;> first | rfl | cases hk
      · rfl
  | @granted q t hk hw ht =>
      obtain ⟨hr, ho⟩ := hrep t hw
      have hclass : ∀ d : Bool, ∀ k t : RawMessageType, k.isReplyTo t = true →
          t.isOutcome = true → t.isFail = false → k.isEvict = false →
          (Copy.resting k.granted none).writeRight = (Await.answered t).writeRight k d := by decide
      show (Copy.resting (q.settle _) none).writeRight = q.await.writeRight q.kind q.downgraded
      rw [hw, Claim.settle, show q.flag = false from hf]
      exact hclass _ _ _ hr ho ht hk
  | @denied q t hk hw ht hb =>
      have hclass : ∀ d : Bool, ∀ k t : RawMessageType, t.isFail = true → k.isEvict = false →
          (Copy.resting k.denied none).writeRight = (Await.answered t).writeRight k d := by decide
      show (Copy.resting (q.settle _) none).writeRight = q.await.writeRight q.kind q.downgraded
      rw [hw, Claim.settle, show q.flag = false from hf]
      exact hclass _ _ _ ht hk
  | @evicted q t hk hw ht =>
      have hclass : ∀ d : Bool, ∀ k t : RawMessageType, k.isEvict = true → t.isEvictAck = true →
          0 = (Await.answered t).writeRight k d := by decide
      show 0 = q.await.writeRight q.kind q.downgraded
      rw [hw]
      exact hclass _ _ _ hk ht
  | @lost q hk hw hb =>
      change q.flag = false at hf
      rw [hb] at hf
      cases hf
  | @restored q hk hw =>
      have hclass : ∀ d : Bool, ∀ k : RawMessageType, k.isEvict = true →
          (Copy.resting (if k = .rEvictDirty ∧ d = false then .modified else .shared)
            (some q.thread)).writeRight
          = (Await.answered .dir2AppMCheckFail).writeRight k d := by
        generalize q.thread = τ
        intro d k
        cases d <;> cases k <;> rintro ⟨⟩ <;> rfl
      show (Copy.resting (q.settle _) _).writeRight = q.await.writeRight q.kind q.downgraded
      rw [hw, Claim.settle, show q.flag = false from hf]
      exact hclass _ _ hk

/-- A request neither gives nor takes the right to write. -/
theorem Copy.ask_writes {τ : ThreadId} {k : RawMessageType} {o : Origin}
    (h : c.ask τ k o = some c') : c'.writeRight = c.writeRight := by
  obtain ⟨q, rfl, hw, -, -, rfl⟩ := ask_eq h
  show q.await.writeRight q.kind q.downgraded = Await.unsent.writeRight q.kind q.downgraded
  rw [hw]
  cases q.kind <;> rfl

/-- The answers that confirm the eviction of a modified line take the right to write; the
others give what they grant. -/
theorem Copy.advance_writes {p : Packet} {q : Claim} {hasData granted : Bool}
    (hc : c = .claimed q) (hq : q.await = .waiting p.origin hasData granted)
    (hr : q.kind.isReplyTo p.msg.mtype)
    (hs : p.msg.mtype.isShareddata → hasData = false)
    (ho : p.msg.mtype.isOutcome → granted = false ∧ (p.msg.mtype.isMissAggack = false →
      hasData = false)) :
    (p.msg.mtype.isDirtyEvictAck = false →
      (c.advance p).writeRight = c.writeRight + p.msg.mtype.isWriteGrant.toNat) ∧
    (p.msg.mtype.isDirtyEvictAck = true → (c.advance p).writeRight = 0 ∧ c.writeRight ≤ 1) := by
  subst hc
  rw [advance_waiting hq]
  show (_ → Await.writeRight q.kind q.downgraded _ = q.await.writeRight q.kind q.downgraded + _) ∧
    (_ → Await.writeRight q.kind q.downgraded _ = 0 ∧ q.await.writeRight q.kind q.downgraded ≤ 1)
  rw [hq]
  revert hr hs ho
  generalize p.msg.mtype = t, q.kind = k, q.downgraded = d, p.origin = o
  intro hr hs ho
  cases hsd : t.isShareddata
  · have hclass : ∀ k t : RawMessageType, k.isReplyTo t = true → t.isShareddata = false →
        t.isOutcome = true := by decide
    obtain ⟨rfl, -⟩ := ho (hclass _ _ hr hsd)
    cases hma : t.isMissAggack
    · rw [Await.learn_other hsd hma]
      have hunsent : (Await.waiting o hasData false).writeRight k d = Await.unsent.writeRight k d := by
        cases k <;> rfl
      have hclass : ∀ d : Bool, ∀ k t : RawMessageType, k.isReplyTo t = true →
          (t.isDirtyEvictAck = false → (Await.answered t).writeRight k d
            = Await.unsent.writeRight k d + t.isWriteGrant.toNat) ∧
          (t.isDirtyEvictAck = true → (Await.answered t).writeRight k d = 0 ∧
            Await.unsent.writeRight k d ≤ 1) := by decide
      rw [hunsent]
      exact hclass d k t hr
    · have hclass : ∀ k t : RawMessageType, k.isReplyTo t = true → t.isMissAggack = true →
          k = .rWriteMiss ∧ t = .dir2AppWriteMissSharedAggackAck := by decide
      obtain ⟨rfl, rfl⟩ := hclass _ _ hr hma
      cases hasData <;> exact ⟨fun _ => rfl, fun hd => by cases hd⟩
  · have hclass : ∀ k t : RawMessageType, k.isReplyTo t = true → t.isShareddata = true →
        k = .rWriteMiss ∧ t = .dir2AppWriteMissShareddata := by decide
    obtain ⟨rfl, rfl⟩ := hclass _ _ hr hsd
    cases granted <;> exact ⟨fun _ => rfl, fun hd => by cases hd⟩

theorem Await.writeRight_le_one {k : RawMessageType} {d : Bool} (w : Await) :
    w.writeRight k d ≤ 1 := by
  cases k <;> cases w <;> first | exact Bool.toNat_le _ | exact Nat.zero_le _

theorem Copy.writeRight_le_one : c.writeRight ≤ 1 := by
  match c with
  | .absent | .resting .invalid _ | .resting .shared _ => exact Nat.zero_le _
  | .resting .modified _ => exact le_refl _
  | .claimed q => exact q.await.writeRight_le_one

/-- An order that is carried out takes the right to write if it is one of the two that do, or
flags the copy. -/
theorem Copy.obey_writes {t : RawMessageType} (h : c.obey t = some c') (hf : c'.flagged = false) :
    t.takesWrite = false ∧ c'.writeRight = c.writeRight ∨
      t.takesWrite ∧ c'.writeRight = 0 ∧ ∀ q, c = .claimed q → q.kind.isEvict := by
  cases c with
  | absent =>
      cases h
      cases ht : t.takesWrite
      · exact .inl ⟨rfl, rfl⟩
      · exact .inr ⟨rfl, rfl, fun q hq => by cases hq⟩
  | resting st w =>
      have hclass : ∀ t : RawMessageType, (t.isSharedOrder = true → t.takesWrite = false) ∧
          (t.downgrades = true → t.takesWrite = true) ∧
          (t.revokesDirty = true → t.takesWrite = true) := by decide
      obtain ⟨hshared, hdown, hdirty⟩ := hclass t
      obtain ⟨st', rfl, ⟨rfl, hs, rfl⟩ | ⟨rfl, hs, rfl⟩ | ⟨rfl, -, hs, rfl⟩⟩ := obey_resting h
      · exact .inl ⟨hshared hs, rfl⟩
      · exact .inr ⟨hdown hs, rfl, fun q hq => by cases hq⟩
      · exact .inr ⟨hdirty hs, rfl, fun q hq => by cases hq⟩
  | claimed q =>
      obtain ⟨-, ⟨-, rfl⟩ | ⟨-, hd, hk, -, rfl⟩⟩ := obey_claimed h
      · cases hf
      · refine .inr ⟨?_, ?_, fun q' hq => ?_⟩
        · show (t.revokesDirty || t.downgrades) = true
          rw [hd, Bool.or_true]
        · have hclass : ∀ k : RawMessageType, k.isEvict = true → k = .rEvictShared ∨ k = .rEvictDirty := by
            decide
          show q.await.writeRight q.kind true = 0
          rcases hclass _ hk with hk | hk
          · rw [hk]
            rfl
          · rw [hk]
            cases q.await <;> rfl
        · cases hq
          exact hk

end Moves

namespace Protocol

variable {qNum : ℕ} {p : Protocol}

/-- A grant to write is on its way only to a copy that waits for it, not to one that is being
evicted. -/
theorem writeGranting_zero (h : (protocol qNum).Reachable p) {n : NodeId} {b : Block}
    (hw : (∀ o, (p.copies n b).awaits o = none) ∨
      ∀ q, p.copies n b = .claimed q → q.kind.isEvict) : p.fabric.writeGranting n b = 0 := by
  by_contra hne
  obtain ⟨q, o, hasData, hc, hq, -, t, ht, hr⟩ :=
    awaits_of_asked h (d := (·.isWriteGrant)) (by decide) (Nat.pos_of_ne_zero hne)
  rcases hw with hw | hw
  · have := hw o
    rw [Copy.awaits_eq_some (w := (hasData, false)) |>.mpr ⟨q, hc, hq⟩] at this
    cases this
  · have hclass : ∀ k t : RawMessageType, k.isEvict = true → k.isReplyTo t = true →
        t.isWriteGrant = false := by decide
    rw [hclass _ _ (hw q hc) hr] at ht
    cases ht

/-- The right of node `n` to write block `b`: what its copy stands for, and the grants on
their way to it. -/
def writing (p : Protocol) (n : NodeId) (b : Block) : ℕ :=
  (p.copies n b).writeRight + p.fabric.writeGranting n b

/-- The same right on the directory's side, with what is on its way to take it back. -/
def writeHeld (p : Protocol) (n : NodeId) (b : Block) : ℕ :=
  (Ledger.writeHolding n b).value p.fabric + p.held (·.takesWrite) n b

/-- The downgrades among these. -/
def demoting (p : Protocol) (n : NodeId) (b : Block) : ℕ :=
  p.fabric.downgrading n b + p.held (·.downgrades) n b

/-- The others: the write grant of node `n` that still stands on the directory's side. -/
def writeStanding (p : Protocol) (n : NodeId) (b : Block) : ℕ :=
  p.fabric.writeOwning n b + p.fabric.revokingDirty n b + p.fabric.releasingDirty n b
    + p.held (·.revokesDirty) n b

/-- Action `a` is an agent of node `n` carrying out a downgrade of block `b`. -/
def Demotes (p : Protocol) (a : ProtocolAction) (n : NodeId) (b : Block) : Prop :=
  ∃ i k, a = .apply n i ∧ p.hands n i = some k ∧ k.msg.block = b ∧ k.msg.mtype.downgrades

/-- What a step does to the right of node `n` to write block `b`: both sides change alike, or
the right is taken, or the flag is cleared and nothing is left. -/
inductive WriteStep (n : NodeId) (b : Block) (p : Protocol) (a : ProtocolAction) (p' : Protocol) :
    Prop
  | moved (hf : (p.copies n b).flagged = false)
      (h : p'.writing n b + p.writeHeld n b = p.writing n b + p'.writeHeld n b)
      (hd : p.demoting n b ≤ p'.demoting n b)
  | taken (hf : (p.copies n b).flagged = false) (hle : p.writing n b ≤ 1)
      (h : p'.writing n b = 0) (hh : p'.writeHeld n b + 1 = p.writeHeld n b)
      (hd : p'.demoting n b = p.demoting n b ∨
        p.Demotes a n b ∧ p'.demoting n b + 1 = p.demoting n b)
  | cleared (hf : (p.copies n b).flagged) (hd : p'.demoting n b = p.demoting n b)
      (h : p'.writing n b = 0) (hr : (p'.copies n b).right = 0) (hg : p'.fabric.granting n b = 0)

theorem writeStep {a : ProtocolAction} {p' : Protocol} (hr : (protocol qNum).Reachable p)
    (hs : Stepped qNum p a p') {n : NodeId} {b : Block} (hf : (p'.copies n b).flagged = false) :
    WriteStep n b p a p' := by
  cases hs with
  | @internal a f ha hi =>
      have hstep := (fabricInv hr).blockStep ha hi b
      have hwrites := hstep.writes (n := n)
      have hdown := hstep.downgrading (n := n)
      refine .moved hf ?_ (Nat.add_le_add_right hdown _)
      show (p.copies n b).writeRight + f.writeGranting n b + ((Ledger.writeHolding n b).value p.fabric
        + p.held (·.takesWrite) n b) = (p.copies n b).writeRight + p.fabric.writeGranting n b
        + ((Ledger.writeHolding n b).value f + p.held (·.takesWrite) n b)
      omega
  | @turn k d c ht =>
      by_cases hkd : n = k ∧ b = d
      · obtain ⟨rfl, rfl⟩ := hkd
        have hcopy : (p.setCopy n b c).copies n b = c := by rw [setCopy_copies, if_pos ⟨rfl, rfl⟩]
        cases hflag : (p.copies n b).flagged
        · refine .moved hflag ?_ le_rfl
          show ((p.setCopy n b c).copies n b).writeRight + _ + p.writeHeld n b
            = (p.copies n b).writeRight + _ + p.writeHeld n b
          rw [hcopy, ht.writes (replied hr n b) hflag]
          rfl
        · obtain ⟨hright, hwrite⟩ := ht.of_flagged hflag
          have hwait : ∀ o, (p.copies n b).awaits o = none := fun o => (ht.awaits (o := o)).2
          refine .cleared hflag rfl ?_ (by rw [hcopy]; exact hright) (granting_zero hr hwait)
          show ((p.setCopy n b c).copies n b).writeRight + p.fabric.writeGranting n b = 0
          rw [hcopy, hwrite, writeGranting_zero hr (.inl hwait)]
      · have hcopy : (p.setCopy k d c).copies n b = p.copies n b := by
          rw [setCopy_copies, if_neg hkd]
        refine .moved (hcopy ▸ hf) ?_ le_rfl
        show ((p.setCopy k d c).copies n b).writeRight + _ + p.writeHeld n b
          = (p.copies n b).writeRight + _ + p.writeHeld n b
        rw [hcopy]
        rfl
  | @request m c hm ht hc =>
      have hval : ∀ L : Ledger b, L.flight ⟨.net, ⟨(p.origin m).ticket, cacheCtrlToNet m⟩⟩ = 0 →
          L.value (p.afterRequest m c).fabric = L.value p.fabric := fun L hL => by
        rw [value_request, hL, Nat.add_zero]
      have hreq : ∀ d : RawMessageType → Bool, (∀ t, t.isRequest = true → d t = false) →
          (Ledger.asked d n b).value (p.afterRequest m c).fabric = (Ledger.asked d n b).value p.fabric :=
        fun d hd => hval _ (CtrlMsg.forReq_zero (d := (·.isRequest)) hd hm)
      have hord : ∀ d : RawMessageType → Bool, (∀ t, t.isRequest = true → d t = false) →
          (Ledger.meant d n b).value (p.afterRequest m c).fabric = (Ledger.meant d n b).value p.fabric :=
        fun d hd => hval _ (CtrlMsg.forAgent_zero (d := (·.isRequest)) hd hm)
      have hown := hval (.writeOwning n b) (CtrlMsg.forReq_zero (d := (·.isRequest)) (by decide) hm)
      have hheld : (p.afterRequest m c).writeHeld n b = p.writeHeld n b := by
        have htake := hord (·.takesWrite) (by decide)
        have hfree := hreq (·.isDirtyEvictAck) (by decide)
        simp only [writeHeld, Ledger.writeHolding, Ledger.value_add, hown, htake, hfree]
        rfl
      have hdem : (p.afterRequest m c).demoting n b = p.demoting n b :=
        congrArg (· + p.held (·.downgrades) n b) (hord _ (by decide))
      have hgrant : (p.afterRequest m c).fabric.writeGranting n b = p.fabric.writeGranting n b :=
        hreq _ (by decide)
      have hcopy : (p.afterRequest m c).copies n b = p.copies n b ∨
          (p.copies n b).ask m.reqClineAppThreadID m.mtype (p.origin m)
            = some ((p.afterRequest m c).copies n b) := by
        show (p.setCopy _ _ c).copies n b = _ ∨ _ = some ((p.setCopy _ _ c).copies n b)
        rw [setCopy_copies]
        split
        next hnb => rw [hnb.1, hnb.2]; exact .inr hc
        next => exact .inl rfl
      have hwrite : ((p.afterRequest m c).copies n b).writeRight = (p.copies n b).writeRight ∧
          ((p.afterRequest m c).copies n b).flagged = (p.copies n b).flagged := by
        rcases hcopy with hcopy | hcopy
        · rw [hcopy]
          exact ⟨rfl, rfl⟩
        · exact ⟨Copy.ask_writes hcopy, (Copy.ask_rights hcopy).2⟩
      refine .moved (hwrite.2 ▸ hf) ?_ hdem.ge
      rw [writing, writing, hheld, hgrant, hwrite.1]
  | @receive k τ i m hi' hf' =>
      have hmem := List.mem_of_getElem? hf'
      have hroute := (fabricInv hr).routed _ hmem
      have hreq : m.msg.reqClineNodeID = k := hroute.2.1
      have hhold := (Ledger.writeHolding n b).value_pop hf'
      have hgrant := (Ledger.asked (·.isWriteGrant) n b).value_pop hf'
      have hdown := (Ledger.meant (·.downgrades) n b).value_pop hf'
      change _ + m.msg.forReq _ n b = _ at hgrant
      change _ + m.msg.forAgent _ n b = _ at hdown
      rw [Ledger.writeHolding_flight, CtrlMsg.forReq_zero (d := (·.isAnswer)) (by decide) hroute.1,
        CtrlMsg.forAgent_zero (d := (·.isAnswer)) (by decide) hroute.1] at hhold
      rw [CtrlMsg.forAgent_zero (d := (·.isAnswer)) (by decide) hroute.1] at hdown
      have hdem : (p.afterReceive k τ i m).demoting n b = p.demoting n b :=
        congrArg (· + p.held (·.downgrades) n b) hdown
      by_cases hnb : n = k ∧ b = m.msg.block
      · obtain ⟨rfl, rfl⟩ := hnb
        have hcopy : (p.afterReceive n τ i m).copies n m.msg.block
            = (p.copies n m.msg.block).advance m := by
          show (p.setCopy _ _ _).copies _ _ = _
          rw [setCopy_copies, if_pos ⟨rfl, rfl⟩]
        obtain ⟨q, hasData, granted, hc, -, hq, -, -, hrep, -, hs, ho⟩ := receives hr hmem
        obtain ⟨hgive, htake⟩ := Copy.advance_writes hc hq hrep hs ho
        have hflag := (Copy.advance_rights hc hq hrep hs ho).2
        rw [hcopy, hflag] at hf
        rw [CtrlMsg.forReq_self rfl hreq] at hhold hgrant
        cases hack : m.msg.mtype.isDirtyEvictAck
        · refine .moved hf ?_ hdem.ge
          have hgive := hgive hack
          rw [hack] at hhold
          show ((p.afterReceive n τ i m).copies _ _).writeRight
            + (Ledger.asked (·.isWriteGrant) _ _).value (p.fabric.afterPop i)
            + ((Ledger.writeHolding _ _).value p.fabric + p.held _ _ _) = (p.copies _ _).writeRight
            + (Ledger.asked (·.isWriteGrant) _ _).value p.fabric
            + ((Ledger.writeHolding _ _).value (p.fabric.afterPop i) + p.held _ _ _)
          change _ + 0 = _ at hhold
          rw [hcopy]
          omega
        · obtain ⟨hzero, hone⟩ := htake hack
          have hclass : ∀ k t : RawMessageType, k.isReplyTo t = true → t.isDirtyEvictAck = true →
              k.isEvict = true ∧ t.isWriteGrant = false := by decide
          obtain ⟨hevict, hnone⟩ := hclass _ _ hrep hack
          have hno : p.fabric.writeGranting n m.msg.block = 0 :=
            writeGranting_zero hr (.inr fun q' hq' => by rw [hc] at hq'; cases hq'; exact hevict)
          rw [hack] at hhold
          rw [hnone] at hgrant
          change _ + 1 = _ at hhold
          change _ + 0 = p.fabric.writeGranting _ _ at hgrant
          refine .taken hf ?_ ?_ ?_ (.inl hdem)
          · show (p.copies _ _).writeRight + p.fabric.writeGranting _ _ ≤ 1
            omega
          · show ((p.afterReceive n τ i m).copies _ _).writeRight
              + (Ledger.asked (·.isWriteGrant) _ _).value (p.fabric.afterPop i) = 0
            rw [hcopy]
            omega
          · show (Ledger.writeHolding _ _).value (p.fabric.afterPop i) + p.held _ _ _ + 1
              = (Ledger.writeHolding _ _).value p.fabric + p.held _ _ _
            omega
      · have hcopy : (p.afterReceive k τ i m).copies n b = p.copies n b := by
          show (p.setCopy _ _ _).copies n b = _
          rw [setCopy_copies, if_neg hnb]
        rw [CtrlMsg.forReq_other (hreq ▸ hnb)] at hhold hgrant
        refine .moved (hcopy ▸ hf) ?_ hdem.ge
        show ((p.afterReceive k τ i m).copies _ _).writeRight
          + (Ledger.asked (·.isWriteGrant) _ _).value (p.fabric.afterPop i)
          + ((Ledger.writeHolding _ _).value p.fabric + p.held _ _ _) = (p.copies _ _).writeRight
          + (Ledger.asked (·.isWriteGrant) _ _).value p.fabric
          + ((Ledger.writeHolding _ _).value (p.fabric.afterPop i) + p.held _ _ _)
        rw [hcopy]
        omega
  | @take k a i m hn hi' hf' =>
      have hmem := List.mem_of_getElem? hf'
      have hroute := (fabricInv hr).routed _ hmem
      have hhold := (Ledger.writeHolding n b).value_pop hf'
      have hgrant := (Ledger.asked (·.isWriteGrant) n b).value_pop hf'
      have hdown := (Ledger.meant (·.downgrades) n b).value_pop hf'
      change _ + m.msg.forReq _ n b = _ at hgrant
      change _ + m.msg.forAgent (·.downgrades) n b = _ at hdown
      rw [Ledger.writeHolding_flight, CtrlMsg.forReq_zero (d := (·.isOrder)) (by decide) hroute.1,
        CtrlMsg.forReq_zero (d := (·.isOrder)) (by decide) hroute.1] at hhold
      change _ + (0 + m.msg.forAgent (·.takesWrite) n b + 0) = _ at hhold
      rw [CtrlMsg.forReq_zero (d := (·.isOrder)) (by decide) hroute.1] at hgrant
      have hheld := fun c => held_setHand (p := p) (c := c) (n := k) (a := a) (some m)
        (fun m' hm' => by cases hm'; exact hroute.2) (fun m' hm' => by rw [hn] at hm'; cases hm') n b
      have htakes := hheld (·.takesWrite)
      have hdowns := hheld (·.downgrades)
      rw [hn] at htakes hdowns
      change _ + 0 = _ + m.msg.forAgent (·.takesWrite) n b at htakes
      change _ + 0 = _ + m.msg.forAgent (·.downgrades) n b at hdowns
      refine .moved hf ?_ ?_
      · show (p.copies n b).writeRight + (Ledger.asked (·.isWriteGrant) n b).value (p.fabric.afterPop i)
          + ((Ledger.writeHolding n b).value p.fabric + p.held (·.takesWrite) n b)
          = (p.copies n b).writeRight + (Ledger.asked (·.isWriteGrant) n b).value p.fabric
          + ((Ledger.writeHolding n b).value (p.fabric.afterPop i)
            + (p.setHand k a (some m)).held (·.takesWrite) n b)
        omega
      · show (Ledger.meant (·.downgrades) n b).value p.fabric + p.held (·.downgrades) n b
          ≤ (Ledger.meant (·.downgrades) n b).value (p.fabric.afterPop i)
            + (p.setHand k a (some m)).held (·.downgrades) n b
        omega
  | @apply k a m c hh hc =>
      obtain ⟨hord, hnode, -⟩ := hands_order hr hh
      have hheld := fun c => held_setHand (p := p) (c := c) (n := k) (a := a) none
        (fun m' hm' => by cases hm') (fun m' hm' => by rw [hh] at hm'; cases hm'; exact hnode) n b
      have htakes := hheld (·.takesWrite)
      have hdowns := hheld (·.downgrades)
      rw [hh] at htakes hdowns
      change _ + m.msg.forAgent (·.takesWrite) n b = _ + 0 at htakes
      change _ + m.msg.forAgent (·.downgrades) n b = _ + 0 at hdowns
      by_cases hnb : n = k ∧ b = m.msg.block
      · obtain ⟨rfl, rfl⟩ := hnb
        have hcopy : (p.setCopy n m.msg.block c).copies n m.msg.block = c := by
          rw [setCopy_copies, if_pos ⟨rfl, rfl⟩]
        change ((p.setCopy n m.msg.block c).copies n m.msg.block).flagged = false at hf
        rw [hcopy] at hf
        have hflag : (p.copies n m.msg.block).flagged = false := by
          cases hold : p.copies n m.msg.block with
          | absent | resting => rfl
          | claimed q =>
              rw [hold] at hc
              exact (Copy.obey_claimed hc).1
        rw [CtrlMsg.forAgent_self rfl hnode] at htakes hdowns
        have hclass : ∀ t : RawMessageType, t.takesWrite = false → t.downgrades = false := by decide
        rcases Copy.obey_writes hc hf with ⟨htw, hkeep⟩ | ⟨htw, hzero, hevict⟩
        · rw [htw] at htakes
          rw [hclass _ htw] at hdowns
          refine .moved hflag ?_ ?_
          · show ((p.setCopy n m.msg.block c).copies _ _).writeRight + p.fabric.writeGranting _ _
              + ((Ledger.writeHolding n m.msg.block).value p.fabric + p.held (·.takesWrite) _ _)
              = (p.copies _ _).writeRight + p.fabric.writeGranting _ _
              + ((Ledger.writeHolding n m.msg.block).value p.fabric
                + (p.setHand n a none).held (·.takesWrite) _ _)
            change _ + 0 = _ + 0 at htakes
            rw [hcopy]
            omega
          · exact Nat.add_le_add_left hdowns.ge _
        · have hno := writeGranting_zero hr (n := n) (b := m.msg.block) (by
            cases hold : p.copies n m.msg.block with
            | absent | resting => exact .inl fun o => rfl
            | claimed q => exact .inr fun q' hq' => hevict q' (hold.trans hq'))
          rw [htw] at htakes
          change _ + 1 = _ + 0 at htakes
          refine .taken hflag ?_ ?_ ?_ ?_
          · show (p.copies _ _).writeRight + p.fabric.writeGranting _ _ ≤ 1
            rw [hno]
            exact Copy.writeRight_le_one
          · show ((p.setCopy n m.msg.block c).copies _ _).writeRight + p.fabric.writeGranting _ _ = 0
            rw [hcopy, hzero, hno]
          · show (Ledger.writeHolding n m.msg.block).value p.fabric
              + (p.setHand n a none).held (·.takesWrite) _ _ + 1
              = (Ledger.writeHolding n m.msg.block).value p.fabric + p.held (·.takesWrite) _ _
            omega
          · cases hd : m.msg.mtype.downgrades
            · rw [hd] at hdowns
              exact .inl (congrArg (p.fabric.downgrading _ _ + ·) hdowns)
            · rw [hd] at hdowns
              exact .inr ⟨⟨a, m, rfl, hh, rfl, hd⟩, congrArg (p.fabric.downgrading _ _ + ·) hdowns⟩
      · have hcopy : (p.setCopy k m.msg.block c).copies n b = p.copies n b := by
          rw [setCopy_copies, if_neg hnb]
        rw [CtrlMsg.forAgent_other (hnode ▸ hnb)] at htakes hdowns
        refine .moved (hcopy ▸ hf) ?_ ?_
        · show ((p.setCopy k m.msg.block c).copies n b).writeRight + p.fabric.writeGranting n b
            + ((Ledger.writeHolding n b).value p.fabric + p.held (·.takesWrite) n b)
            = (p.copies n b).writeRight + p.fabric.writeGranting n b
            + ((Ledger.writeHolding n b).value p.fabric + (p.setHand k a none).held (·.takesWrite) n b)
          rw [hcopy]
          omega
        · exact Nat.add_le_add_left hdowns.ge _

/-- The directory's side of the right to write is made of the downgrades and the rest. -/
theorem writeHeld_eq (p : Protocol) (n : NodeId) (b : Block) :
    p.writeHeld n b = p.writeStanding n b + p.demoting n b := by
  have hagent : ∀ m : CtrlMsg, m.forAgent (·.takesWrite) n b
      = m.forAgent (·.revokesDirty) n b + m.forAgent (·.downgrades) n b := by
    have hclass : ∀ t : RawMessageType, ¬ (t.revokesDirty = true ∧ t.downgrades = true) := by decide
    intro m
    have hm := hclass m.mtype
    unfold CtrlMsg.forAgent RawMessageType.takesWrite
    cases hr : m.mtype.revokesDirty <;> cases hd : m.mtype.downgrades <;>
      simp [hr, hd] at hm ⊢
  have hmeant : (Ledger.meant (·.takesWrite) n b).value p.fabric
      = (Ledger.meant (·.revokesDirty) n b + Ledger.meant (·.downgrades) n b).value p.fabric := by
    refine le_antisymm (Ledger.value_mono ?_ ?_ ?_ ?_ _) (Ledger.value_mono ?_ ?_ ?_ ?_ _)
    · exact fun f => (hagent f.packet.msg).le
    · exact fun _ => le_rfl
    · exact fun _ => le_rfl
    · exact fun _ _ => le_rfl
    · exact fun f => (hagent f.packet.msg).ge
    · exact fun _ => le_rfl
    · exact fun _ => le_rfl
    · exact fun _ _ => le_rfl
  have hheld : p.held (·.takesWrite) n b
      = p.held (·.revokesDirty) n b + p.held (·.downgrades) n b := by
    unfold held
    rw [← Finset.sum_add_distrib]
    refine Finset.sum_congr rfl fun a _ => ?_
    cases p.hands n a with
    | none => rfl
    | some k => exact hagent k.msg
  rw [Ledger.value_add] at hmeant
  simp only [writeHeld, writeStanding, demoting, Ledger.writeHolding, Ledger.value_add,
    Fabric.writeOwning, Fabric.revokingDirty, Fabric.releasingDirty, Fabric.downgrading]
  omega

/-- The write grant that stands is part of the right that stands, and none of it is what an agent is
about to take from a sharer. -/
theorem writeStanding_add_le (p : Protocol) (n : NodeId) (b : Block) :
    p.writeStanding n b + p.held (·.isSharedOrder) n b
      ≤ p.fabric.owning n b + p.fabric.revoking n b + p.fabric.releasing n b
        + p.held (·.revokes) n b := by
  have hforReq : ∀ {c d : RawMessageType → Bool}, (∀ t, c t = true → d t = true) →
      ∀ m : CtrlMsg, m.forReq c n b ≤ m.forReq d n b := by
    intro c d hcd m
    unfold CtrlMsg.forReq
    split
    next hc => rw [if_pos (hcd _ hc)]
    next => exact Nat.zero_le _
  have hforAgent : ∀ m : CtrlMsg, m.forAgent (·.revokesDirty) n b ≤ m.forAgent (·.revokes) n b := by
    have hclass : ∀ t : RawMessageType, t.revokesDirty = true → t.revokes = true := by decide
    intro m
    unfold CtrlMsg.forAgent
    split
    next hc => rw [if_pos (hclass _ hc)]
    next => exact Nat.zero_le _
  have hown : p.fabric.writeOwning n b ≤ p.fabric.owning n b := by
    refine Ledger.value_mono (L := .writeOwning n b) (K := .owning n b) ?_ ?_ ?_ ?_ _
    · exact fun f => hforReq (c := (·.isDirtyShipAck)) (d := (·.isShipAck)) (by decide) f.packet.msg
    · intro r
      show r.shipsDirty n b ≤ r.ships n b
      unfold CcRegs.shipsDirty CcRegs.ships
      split
      next hf => rw [if_pos hf.1]
      next => exact Nat.zero_le _
    · exact fun _ => le_rfl
    · refine fun e T => ind_mono ?_
      rintro ⟨hs, hn⟩
      rw [DirDataE.owned_eq hs (by decide)]
      exact hn
  have hrev : p.fabric.revokingDirty n b ≤ p.fabric.revoking n b := by
    refine Ledger.value_mono (L := .meant (·.revokesDirty) n b) (K := .revoking n b) ?_ ?_ ?_ ?_ _
    · exact fun f => hforAgent f.packet.msg
    · exact fun _ => le_rfl
    · exact fun _ => Nat.zero_le _
    · exact fun _ _ => le_rfl
  have hrel : p.fabric.releasingDirty n b ≤ p.fabric.releasing n b := by
    refine Ledger.value_mono (L := .asked (·.isDirtyEvictAck) n b) (K := .asked (·.isEvictAck) n b)
      ?_ ?_ ?_ ?_ _
    · exact fun f => hforReq (c := (·.isDirtyEvictAck)) (d := (·.isEvictAck)) (by decide) f.packet.msg
    · exact fun _ => le_rfl
    · exact fun _ => le_rfl
    · exact fun _ _ => le_rfl
  have hheld : p.held (·.revokesDirty) n b + p.held (·.isSharedOrder) n b
      ≤ p.held (·.revokes) n b := by
    have hclass : ∀ t : RawMessageType,
        t.revokesDirty.toNat + t.isSharedOrder.toNat ≤ t.revokes.toNat := by decide
    have hmul : ∀ (c : RawMessageType → Bool) (m : CtrlMsg),
        m.forAgent c n b = (c m.mtype).toNat * m.meantFor n b := by
      intro c m
      rw [CtrlMsg.forAgent]
      cases c m.mtype
      · exact (Nat.zero_mul _).symm
      · exact (Nat.one_mul _).symm
    unfold held
    rw [← Finset.sum_add_distrib]
    refine Finset.sum_le_sum fun a _ => ?_
    cases p.hands n a with
    | none => exact le_rfl
    | some k =>
        show k.msg.forAgent (·.revokesDirty) n b + k.msg.forAgent (·.isSharedOrder) n b
          ≤ k.msg.forAgent (·.revokes) n b
        rw [hmul, hmul, hmul, ← Nat.add_mul]
        exact Nat.mul_le_mul_right _ (hclass _)
  rw [writeStanding]
  omega

/-- The write grant that stands is part of the right that stands. -/
theorem writeStanding_le (p : Protocol) (n : NodeId) (b : Block) :
    p.writeStanding n b ≤ p.fabric.owning n b + p.fabric.revoking n b + p.fabric.releasing n b
      + p.held (·.revokes) n b :=
  (Nat.le_add_right _ _).trans (writeStanding_add_le p n b)

theorem writes_init {p : Protocol} (hp : p.Init) (n : NodeId) (b : Block) :
    p.writing n b = 0 ∧ p.writeHeld n b = 0 := by
  have hgrant : p.fabric.writeGranting n b = 0 :=
    (Ledger.asked (·.isWriteGrant) n b).value_init hp.fabric
  have hhold : (Ledger.writeHolding n b).value p.fabric = 0 := by
    refine ((Ledger.writeHolding n b).value_init hp.fabric).trans (ind_of_not fun hd => ?_)
    rw [(hp.fabric.dir b).1] at hd
    cases hd.1
  have hheld : p.held (·.takesWrite) n b = 0 :=
    Finset.sum_eq_zero fun a _ => by rw [hp.hands n a]; rfl
  refine ⟨?_, ?_⟩
  · rw [writing, hp.copies, hgrant]
    rfl
  · rw [writeHeld, hhold, hheld]

/-- A copy that may write, and is not flagged, is that of a writer on the directory's side, or
an order that takes the right to write is under way. -/
theorem writes_le (h : (protocol qNum).Reachable p) (n : NodeId) (b : Block)
    (hf : (p.copies n b).flagged = false) : p.writing n b ≤ p.writeHeld n b := by
  revert n b
  refine invariant (P := fun p => ∀ n b, (p.copies n b).flagged = false →
    p.writing n b ≤ p.writeHeld n b) (fun p hp n b _ => ?_) (fun p a p' hr ih hs n b hf => ?_) h
  · rw [(writes_init hp n b).1]
    exact Nat.zero_le _
  · cases writeStep hr hs hf with
    | moved hf' h hd =>
        have hold := ih n b hf'
        omega
    | taken hf' hle h hh hd =>
        rw [h]
        exact Nat.zero_le _
    | cleared _ _ h =>
        rw [h]
        exact Nat.zero_le _

/-- The runs in which no agent carries out a downgrade of a copy whose node's write grant still
stands: a downgrade that another order, or the node's own eviction, has overtaken. -/
def Timely (p : Protocol) (a : ProtocolAction) : Prop :=
  ∀ n b, p.Demotes a n b → p.writeStanding n b = 0

/-- In these runs a writer on the directory's side, if it is not flagged, has a copy that may
write, or the grant is on its way. -/
theorem writes_ge (h : (protocol qNum).ReachableWhen Timely p) (n : NodeId) (b : Block)
    (hf : (p.copies n b).flagged = false) : p.writeStanding n b ≤ p.writing n b := by
  revert n b
  refine invariantWhen (P := fun p => ∀ n b, (p.copies n b).flagged = false →
    p.writeStanding n b ≤ p.writing n b) (fun p hp n b _ => ?_)
    (fun p a p' hr hr' hok ih hs n b hf => ?_) h
  · have hsum := writeHeld_eq p n b
    have hzero := writes_init hp n b
    omega
  · have hsum := writeHeld_eq p n b
    have hsum' := writeHeld_eq p' n b
    cases writeStep hr hs hf with
    | moved hf' h hd =>
        have hold := ih n b hf'
        omega
    | taken hf' hle h hh hd =>
        have hold := ih n b hf'
        rcases hd with hd | ⟨hd, hdem⟩
        · omega
        · have hzero := hok n b hd
          omega
    | cleared _ _ h hright hg =>
        have hbal := rights hr' n b
        have hle := writeStanding_le p' n b
        rw [hright, hg, hf] at hbal
        change 0 + 0 = _ + 0 at hbal
        omega

end Protocol

end Ting
