/-
# `Ting.Protocol.Refusals` — `BITMAP_CHECK_FAIL` comes with a revocation

When the directory refuses a request with `BITMAP_CHECK_FAIL`, it does not count the requester
among the owners of the block, and it will not do so again before the request has been dealt
with (`refused`).  The copy still stands for a right, so by the balance of rights it has been
flagged or there is a revocation for it, in transit or in the hands of an agent
(`revoked_of_refused`).
-/
import Ting.Protocol.Rights

namespace Ting

open Total

theorem Await.learn_bitmapFail {o : Origin} {hasData granted : Bool} {t : RawMessageType}
    (h : learn o hasData granted t = .answered .dir2AppBitmapCheckFail) :
    t = .dir2AppBitmapCheckFail := by
  cases t <;> first | rfl | cases h | (cases hasData <;> cases granted <;> cases h)

/-- Revocations are in transit, or the directory has still to send them. -/
theorem revoking_eq (s : Fabric) (n : NodeId) (b : Block) : s.revoking n b
    = (Ledger.meant (·.revokes) n b).value s + (Ledger.owing n b).value s := by
  rw [Ledger.owing_value]
  show total (fun f => f.packet.msg.forAgent (·.revokes) n b) s.flights + ∑ _k : NodeId, 0
      + (s.dirRegs b.nodeID).owes b n + 0
    = total (fun f => f.packet.msg.forAgent (·.revokes) n b) s.flights + ∑ _k : NodeId, 0 + 0 + 0 + _
  omega

namespace Protocol

variable {qNum : ℕ} {p : Protocol}

/-- The directory neither counts node `n` among the owners of block `b` nor has a revocation
for it still to send. -/
def Disowned (p : Protocol) (n : NodeId) (b : Block) : Prop :=
  p.fabric.owning n b = 0 ∧ (Ledger.owing n b).value p.fabric = 0

/-- What makes a node an owner is a request of its own. -/
theorem disowned_internal {f : Fabric} {n : NodeId} {b : Block}
    (hs : BlockStep b p.fabric f) (hp : p.Disowned n b)
    (hno : ∀ o : Origin, o.node = n → o.block = b → (Ledger.seeking o).value p.fabric = 0) :
    Disowned { p with fabric := f } n b := by
  constructor
  · by_contra hne
    obtain ⟨o, hn, hb, ho⟩ := hs.owning_le (by rw [hp.1]; exact Nat.pos_of_ne_zero hne)
    have := hno o hn hb
    omega
  · by_contra hne
    have howns := hs.owing_le (by rw [hp.2]; exact Nat.pos_of_ne_zero hne)
    rw [hp.1] at howns
    cases howns

/-- While the answer of one request of a copy is under way, no request of it is pending. -/
theorem seeking_zero (h : (protocol qNum).Reachable p) {o o' : Origin}
    (ho : 1 ≤ (Ledger.answering o).value p.fabric) (hn : o'.node = o.node)
    (hb : o'.block = o.block) : (Ledger.seeking o').value p.fabric = 0 := by
  have ht := tokens h o
  have ht' := tokens_at h hn hb
  have hle : (p.copies o.node o.block).waits o ≤ 1 := Copy.waits_le_one
  by_contra hne
  obtain ⟨w, hw⟩ := Copy.waits_pos (c := p.copies o.node o.block) (o := o) (by omega)
  obtain ⟨w', hw'⟩ := Copy.waits_pos (c := p.copies o.node o.block) (o := o') (by omega)
  obtain rfl := Copy.awaits_unique hw hw'
  omega

/-- A refusal with `BITMAP_CHECK_FAIL` is an answer. -/
theorem answering_of_bitmapFail {o : Origin} {s : Fabric} :
    (Ledger.descending Flight.bitmapFail o).value s ≤ (Ledger.answering o).value s := by
  refine Ledger.value_mono (L := .descending Flight.bitmapFail o) (K := .answering o) (fun f => ?_)
    (fun _ => Nat.le_refl _) (fun _ => Nat.le_refl _) (fun _ _ => Nat.le_refl _) s
  show (if f.bitmapFail then f.packet.stems o else 0) ≤ if f.answers then f.packet.stems o else 0
  have hclass : ∀ t : RawMessageType, t.isBitmapFail = true → t.isOutcome = true := by decide
  cases hb : f.bitmapFail
  · exact Nat.zero_le _
  · rw [if_pos (show f.answers = true from hclass _ hb)]
    exact Nat.le_refl _

/-- Of a request that it refuses with `BITMAP_CHECK_FAIL` the directory holds that its node
does not own the block; so it is not a miss. -/
def Refused (p : Protocol) (n : NodeId) (b : Block) (k : RawMessageType) : Prop :=
  p.Disowned n b ∧ k.isMiss = false

theorem refused (h : (protocol qNum).Reachable p) :
    (∀ o : Origin, 1 ≤ (Ledger.descending Flight.bitmapFail o).value p.fabric →
      p.Refused o.node o.block o.ticket.kind) ∧
    ∀ n b q, p.copies n b = .claimed q → q.await = .answered .dir2AppBitmapCheckFail →
      p.Refused n b q.kind := by
  refine invariant (P := fun p => (∀ o : Origin,
      1 ≤ (Ledger.descending Flight.bitmapFail o).value p.fabric →
      p.Refused o.node o.block o.ticket.kind) ∧
    ∀ n b q, p.copies n b = .claimed q → q.await = .answered .dir2AppBitmapCheckFail →
      p.Refused n b q.kind)
    (fun p hp => ⟨fun o ho => ?_, fun n b q hq => ?_⟩) (fun p _ p' hr ih hs => ?_) h
  · rw [Ledger.value_init _ hp.fabric] at ho
    cases ho
  · rw [hp.copies] at hq
    cases hq
  obtain ⟨ih, ih'⟩ := ih
  cases hs with
  | @internal a f ha hf =>
      have hstep := fun b => (fabricInv hr).blockStep ha hf b
      refine ⟨fun o ho => ?_, fun n b q hc hq => ?_⟩
      · rcases (hstep o.block).bitmapFail (fabricInv hr) ho with hold | ⟨hseek, hsame, hown, hdebt⟩
        · obtain ⟨hp, hk⟩ := ih o hold
          refine ⟨disowned_internal (hstep _) hp fun o' hn hb => ?_, hk⟩
          exact seeking_zero hr (hold.trans answering_of_bitmapFail) hn hb
        · have ht := tokens hr o
          have hle : (p.copies o.node o.block).waits o ≤ 1 := Copy.waits_le_one
          obtain ⟨hasData, hw⟩ := Copy.waits_pos (c := p.copies o.node o.block) (o := o) (by omega)
          obtain ⟨q, hc, hq⟩ := Copy.awaits_eq_some.mp hw
          cases hmiss : o.ticket.kind.isMiss
          · rw [hmiss] at hown
            exact ⟨⟨hsame.trans hown, hdebt⟩, hmiss⟩
          · -- A node that misses a block does not own it: the balance of rights says so.
            have hgrant : p.fabric.granting o.node o.block = 0 := by
              by_contra hne
              obtain ⟨q', o', hd', hc', hq', hans, -⟩ :=
                awaits_of_asked hr (d := (·.isGrant)) (by decide) (Nat.pos_of_ne_zero hne)
              obtain rfl := Copy.awaits_unique hw
                (Copy.awaits_eq_some (w := (hd', false)) |>.mpr ⟨q', hc', hq'⟩)
              omega
            have hasked := asked hr o.node o.block
            rw [hc] at hasked
            have hkind := (Claim.Asked.origin (q := q) hasked _ _ _ hq).2.2.2.1
            have hright : (p.copies o.node o.block).right = 0 := by
              rw [hc]
              show q.await.right q.kind = 0
              rw [← hkind, hq]
              exact if_pos hmiss
            have hbal := rights hr o.node o.block
            rw [hmiss] at hown
            change _ = 1 at hown
            omega
      · obtain ⟨hp, hk⟩ := ih' n b q hc hq
        refine ⟨disowned_internal (hstep _) hp fun o' hn hb => ?_, hk⟩
        have ht := tokens_at hr hn hb
        rw [hc] at ht
        have hz : (Copy.claimed q).waits o' = 0 := by
          rw [Copy.waits, Copy.awaits, hq]
          rfl
        omega
  | @turn k d c ht =>
      refine ⟨ih, fun n b q hc hq => ?_⟩
      rw [setCopy_copies] at hc
      split at hc
      next =>
        subst hc
        cases ht.unsent hq
      next => exact ih' n b q hc hq
  | @request m c hm ht hc =>
      have hval : ∀ {b : Block} (L : Ledger b),
          L.flight ⟨.net, ⟨(p.origin m).ticket, cacheCtrlToNet m⟩⟩ = 0 →
          L.value (p.afterRequest m c).fabric = L.value p.fabric := fun L hL => by
        rw [value_request, hL, Nat.add_zero]
      have hdis : ∀ {n b}, p.Disowned n b → (p.afterRequest m c).Disowned n b :=
        fun hp => ⟨(hval (.owning _ _) (CtrlMsg.forReq_zero (d := (·.isRequest)) (by decide) hm)).trans
          hp.1, (hval (.owing _ _) rfl).trans hp.2⟩
      have hclass : ∀ t : RawMessageType, t.isRequest = true → t.isBitmapFail = false := by decide
      refine ⟨fun o ho => ?_, fun n b q hc' hq => ?_⟩
      · rw [hval (.descending Flight.bitmapFail o) (Ledger.descending_zero (hclass _ hm))] at ho
        exact (ih o ho).imp hdis id
      · change (p.setCopy _ _ c).copies n b = _ at hc'
        rw [setCopy_copies] at hc'
        split at hc'
        next =>
          obtain ⟨q', rfl, hw, -⟩ := Copy.ask_eq hc
          cases hc'
          rw [hw] at hq
          cases hq
        next => exact (ih' n b q hc' hq).imp hdis id
  | @receive k τ i m hi' hf =>
      have hmem := List.mem_of_getElem? hf
      have hroute := (fabricInv hr).routed _ hmem
      have hdis : ∀ {n b}, p.Disowned n b → (p.afterReceive k τ i m).Disowned n b := by
        intro n b hp
        have howning := (Ledger.owning n b).value_pop hf
        have howing := (Ledger.owing n b).value_pop hf
        exact ⟨Nat.le_zero.mp ((Nat.le_of_add_right_le howning.le).trans hp.1.le),
          Nat.le_zero.mp ((Nat.le_of_add_right_le howing.le).trans hp.2.le)⟩
      refine ⟨fun o ho => ?_, fun n b q hc hq => ?_⟩
      · have hpop := (Ledger.descending Flight.bitmapFail o).value_pop hf
        exact (ih o (ho.trans (Nat.le_of_add_right_le hpop.le))).imp hdis id
      · change (p.setCopy _ _ _).copies n b = _ at hc
        rw [setCopy_copies] at hc
        split at hc
        next hnb =>
          obtain ⟨rfl, rfl⟩ := hnb
          obtain ⟨q', hasData, granted, hc', -, hq', -, hkind, hrep, -⟩ := receives hr hmem
          rw [hc', Copy.advance_waiting hq'] at hc
          cases hc
          have hfail : m.msg.mtype = .dir2AppBitmapCheckFail := Await.learn_bitmapFail hq
          have hle := (Ledger.descending Flight.bitmapFail m.origin).flight_le hmem
          have hone : (Ledger.descending Flight.bitmapFail m.origin).flight ⟨.app n τ, m⟩ = 1 := by
            rw [Ledger.descending_flight, if_pos (by
              show m.msg.mtype.isBitmapFail = true
              rw [hfail]
              rfl)]
            exact ind_of rfl
          have hold := ih m.origin (hone ▸ hle)
          have hn : m.origin.node = n := hroute.2.1
          rw [hn] at hold
          rw [hkind]
          exact hold.imp hdis id
        next => exact (ih' n b q hc hq).imp hdis id
  | @take k a i m hn hi' hf =>
      have hdis : ∀ {n b}, p.Disowned n b →
          Disowned { p.setHand k a (some m) with fabric := p.fabric.afterPop i } n b := by
        intro n b hp
        have howning := (Ledger.owning n b).value_pop hf
        have howing := (Ledger.owing n b).value_pop hf
        exact ⟨Nat.le_zero.mp ((Nat.le_of_add_right_le howning.le).trans hp.1.le),
          Nat.le_zero.mp ((Nat.le_of_add_right_le howing.le).trans hp.2.le)⟩
      refine ⟨fun o ho => ?_, fun n b q hc hq => (ih' n b q hc hq).imp hdis id⟩
      have hpop := (Ledger.descending Flight.bitmapFail o).value_pop hf
      exact (ih o (ho.trans (Nat.le_of_add_right_le hpop.le))).imp hdis id
  | @apply k a m c hh hc =>
      refine ⟨ih, fun n b q hc' hq => ?_⟩
      change (p.setCopy _ _ c).copies n b = _ at hc'
      rw [setCopy_copies] at hc'
      split at hc'
      next hnb =>
        obtain ⟨rfl, rfl⟩ := hnb
        subst hc'
        obtain ⟨q', hc', hw, hk, -⟩ := Copy.obey_from hc
        rw [← hk]
        exact ih' n _ q' hc' (hw.trans hq)
      next => exact ih' n b q hc' hq

/-- A copy refused with `BITMAP_CHECK_FAIL` has been flagged, or its revocation is in transit or
in the hands of an agent. -/
theorem revoked_of_refused (h : (protocol qNum).Reachable p) {n : NodeId} {b : Block} {q : Claim}
    (hc : p.copies n b = .claimed q) (hq : q.await = .answered .dir2AppBitmapCheckFail) :
    q.flag ∨ 1 ≤ (Ledger.meant (·.revokes) n b).value p.fabric ∨ 1 ≤ p.held (·.revokes) n b := by
  obtain ⟨⟨hown, howing⟩, hmiss⟩ := (refused h).2 n b q hc hq
  have hwaits : ∀ o, (p.copies n b).awaits o = none := by
    intro o
    rw [hc, Copy.awaits, hq]
  have hgrant := granting_zero h hwaits
  have hrelease : p.fabric.releasing n b = 0 := by
    by_contra hne
    obtain ⟨q', o, hasData, hc', hq', -⟩ :=
      awaits_of_asked h (d := (·.isEvictAck)) (by decide) (Nat.pos_of_ne_zero hne)
    have := hwaits o
    rw [Copy.awaits_eq_some (w := (hasData, false)) |>.mpr ⟨q', hc', hq'⟩] at this
    cases this
  have hright : (p.copies n b).right = 1 := by
    rw [hc]
    show q.right = 1
    rw [q.right_answered hq, hmiss]
    rfl
  have hflag : (p.copies n b).flagged = q.flag := by rw [hc]; rfl
  have hbal := rights h n b
  have hsplit : p.fabric.revoking n b = (Ledger.meant (·.revokes) n b).value p.fabric
      + (Ledger.owing n b).value p.fabric := revoking_eq _ _ _
  rw [hflag] at hbal
  cases hf : q.flag
  · rw [hf] at hbal
    change _ = _ + 0 at hbal
    omega
  · exact .inl rfl

end Protocol

end Ting
