/-
# `Ting.Protocol.Answers` — every answer finds the copy that waits for it

A claimed copy that waits names its request, and the fabric owes that request exactly one
answer (`tokens`), and its data on top of an aggregated grant (`data`).  So whatever a
thread takes from its queue is meant for a copy of its own that still waits for it, and is one
of the answers the request can have: `receives`.
-/
import Ting.Protocol.State

namespace Ting

open Total

/-! ## Claims -/

/-- A claim of a thread of node `n` on its copy of block `b`, as the request it has sent
describes it. -/
structure Claim.Asked (n : NodeId) (b : Block) (q : Claim) : Prop where
  isRequest : q.kind.isRequest
  origin : ∀ o hasData granted, q.await = .waiting o hasData granted →
    o.node = n ∧ o.block = b ∧ o.header.reqClineAppThreadID = q.thread ∧ o.ticket.kind = q.kind ∧
      o.header.clineTag = b.getTag ∧ (hasData && granted) = false

/-- The same, of any copy. -/
def Copy.Asked (n : NodeId) (b : Block) : Copy → Prop
  | claimed q => q.Asked n b
  | _ => True

section Moves

variable {n : NodeId} {b : Block} {c c' : Copy} {o : Origin} {τ : ThreadId} {k : RawMessageType}

theorem Turn.asked (h : Turn c c') : c'.Asked n b := by
  cases h with
  | evict hst => exact ⟨by cases ‹Rest› <;> rfl, fun _ _ _ hw => by cases hw⟩
  | claim τ hk =>
      have hclass : ∀ k : RawMessageType, k.isMiss = true → k.isRequest = true := by decide
      refine ⟨?_, fun _ _ _ hw => by cases hw⟩
      rcases hk with ⟨-, hk⟩ | ⟨-, rfl⟩
      · exact hclass _ hk
      · rfl
  | _ => trivial

/-- A thread turns a copy only while it does not wait. -/
theorem Turn.awaits (h : Turn c c') : c'.awaits o = none ∧ c.awaits o = none := by
  cases h with
  | granted hk hw | denied hk hw | evicted hk hw | lost hk hw | restored hk hw =>
      exact ⟨rfl, by simp [Copy.awaits, hw]⟩
  | _ => exact ⟨rfl, rfl⟩

/-- It never makes a claim that has been answered. -/
theorem Turn.unsent {q : Claim} {t : RawMessageType} (h : Turn c (.claimed q))
    (hw : q.await = .answered t) : False := by
  cases h <;> cases hw

/-- A request turns a claim that has not asked yet into one that waits. -/
theorem Copy.ask_eq (h : c.ask τ k o = some c') : ∃ q, c' = .claimed q ∧
    q.await = .waiting o false false ∧ q.thread = τ ∧ q.kind = k ∧
    c = .claimed { q with await := .unsent } := by
  match c with
  | .absent | .resting _ _ => cases h
  | .claimed q =>
      simp only [ask, Option.ite_none_right_eq_some, Option.some.injEq] at h
      obtain ⟨⟨hτ, hk, hw⟩, rfl⟩ := h
      refine ⟨_, rfl, rfl, hτ, hk, ?_⟩
      cases q
      simp only at hw
      rw [hw]

theorem Copy.ask_awaits {o' : Origin} (h : c.ask τ k o' = some c') :
    c.awaits o = none ∧ c'.awaits o = if o' = o then some (false, false) else none := by
  obtain ⟨q, rfl, hw, -, -, rfl⟩ := ask_eq h
  exact ⟨rfl, by simp [awaits, hw]⟩

/-- An order that is carried out changes the flag or the mark of a claimed copy only. -/
theorem Copy.obey_claimed {q : Claim} {t : RawMessageType} (h : (claimed q).obey t = some c') :
    q.flag = false ∧ (t.revokes ∧ c' = claimed { q with flag := true } ∨
      t.revokes = false ∧ t.downgrades ∧ q.kind.isEvict ∧ q.downgraded = false ∧
        c' = claimed { q with downgraded := true }) := by
  simp only [obey] at h
  split at h
  next => cases h
  next hf =>
    refine ⟨by simpa using hf, ?_⟩
    split at h
    next hr => exact .inl ⟨hr, (Option.some.inj h).symm⟩
    next hr =>
      split at h
      next hd =>
        simp only [Bool.and_eq_true, Bool.not_eq_true'] at hd
        exact .inr ⟨by simpa using hr, hd.1.1, hd.1.2, hd.2, (Option.some.inj h).symm⟩
      next => cases h

/-- A copy at rest stays at rest, in the hands of the same thread. -/
theorem Copy.obey_resting {st : Rest} {w : Option ThreadId} {t : RawMessageType}
    (h : (resting st w).obey t = some c') : ∃ st', c' = resting st' w ∧
      (st = .shared ∧ t.isSharedOrder ∧ st' = .invalid ∨
        st = .modified ∧ t.downgrades ∧ st' = .shared ∨
        st = .modified ∧ t.downgrades = false ∧ t.revokesDirty ∧ st' = .invalid) := by
  cases st with
  | invalid => cases h
  | shared =>
      simp only [obey, Option.ite_none_right_eq_some, Option.some.injEq] at h
      exact ⟨_, h.2.symm, .inl ⟨rfl, h.1, rfl⟩⟩
  | modified =>
      simp only [obey] at h
      split at h
      next hd => exact ⟨_, (Option.some.inj h).symm, .inr (.inl ⟨rfl, hd, rfl⟩)⟩
      next hd =>
        simp only [Option.ite_none_right_eq_some, Option.some.injEq] at h
        exact ⟨_, h.2.symm, .inr (.inr ⟨rfl, by simpa using hd, h.1, rfl⟩)⟩

/-- A copy that is claimed after an order was carried out was claimed before, with the same
request and the same answer. -/
theorem Copy.obey_from {q : Claim} {t : RawMessageType} (h : c.obey t = some (claimed q)) :
    ∃ q', c = .claimed q' ∧ q'.await = q.await ∧ q'.kind = q.kind ∧ q'.thread = q.thread := by
  cases c with
  | absent => cases h
  | resting st w =>
      obtain ⟨st', hc, -⟩ := obey_resting h
      cases hc
  | claimed q' =>
      obtain ⟨-, ⟨-, hc⟩ | ⟨-, -, -, -, hc⟩⟩ := obey_claimed h <;> cases hc <;>
        exact ⟨q', rfl, rfl, rfl, rfl⟩

theorem Copy.obey_awaits {t : RawMessageType} (h : c.obey t = some c') (hc : c.Asked n b) :
    c'.Asked n b ∧ c'.awaits o = c.awaits o := by
  cases c with
  | absent => cases h; exact ⟨trivial, rfl⟩
  | resting st w =>
      obtain ⟨st', rfl, -⟩ := obey_resting h
      exact ⟨trivial, rfl⟩
  | claimed q =>
      obtain ⟨-, ⟨-, rfl⟩ | ⟨-, -, -, -, rfl⟩⟩ := obey_claimed h <;>
        exact ⟨⟨hc.isRequest, hc.origin⟩, rfl⟩

theorem Copy.awaits_eq_some {w : Bool × Bool} :
    c.awaits o = some w ↔ ∃ q, c = .claimed q ∧ q.await = .waiting o w.1 w.2 := by
  constructor
  · intro h
    match c with
    | .absent | .resting _ _ => cases h
    | .claimed q =>
        simp only [awaits] at h
        split at h
        next o' hasData granted hw =>
          split at h
          next ho => cases h; exact ⟨q, rfl, ho ▸ hw⟩
          next => cases h
        next => cases h
  · rintro ⟨q, rfl, hw⟩
    simp [awaits, hw]

/-- A copy waits for one request at a time. -/
theorem Copy.awaits_unique {o' : Origin} {w w' : Bool × Bool} (h : c.awaits o = some w)
    (h' : c.awaits o' = some w') : o = o' := by
  obtain ⟨q, rfl, hq⟩ := awaits_eq_some.mp h
  obtain ⟨q', hc, hq'⟩ := awaits_eq_some.mp h'
  cases hc
  rw [hq, Await.waiting.injEq] at hq'
  exact hq'.1

theorem Copy.waits_pos (h : 0 < c.waits o) : ∃ hasData, c.awaits o = some (hasData, false) := by
  unfold waits at h
  cases hw : c.awaits o with
  | none => rw [hw] at h; cases h
  | some w =>
      rw [hw] at h
      obtain ⟨hasData, granted⟩ := w
      cases granted
      · exact ⟨hasData, rfl⟩
      · cases h

theorem Copy.waits_le_one : c.waits o ≤ 1 := by
  unfold waits
  cases c.awaits o with
  | none => exact Nat.zero_le _
  | some w => exact Bool.toNat_le _

theorem Copy.hasGrant_pos (h : 0 < c.hasGrant o) :
    ∃ hasData, c.awaits o = some (hasData, true) := by
  unfold hasGrant at h
  cases hw : c.awaits o with
  | none => rw [hw] at h; cases h
  | some w =>
      rw [hw] at h
      obtain ⟨hasData, granted⟩ := w
      cases granted
      · cases h
      · exact ⟨hasData, rfl⟩

theorem Await.learn_other {hasData granted : Bool} {t : RawMessageType}
    (hs : t.isShareddata = false) (hm : t.isMissAggack = false) :
    learn o hasData granted t = .answered t := by
  cases t <;> first | rfl | (cases hs; done) | cases hm

/-- Messages of other requests leave a copy as it is. -/
theorem Copy.advance_eq {p : Packet} (h : c.awaits p.origin = none) : c.advance p = c := by
  match c with
  | .absent | .resting _ _ => rfl
  | .claimed q =>
      have hw : q.await.advance p = q.await := by
        cases ha : q.await with
        | waiting o hasData granted =>
            refine if_neg fun ho => ?_
            rw [awaits_eq_some (w := (hasData, granted)) |>.mpr ⟨q, rfl, ho ▸ ha⟩] at h
            cases h
        | unsent | answered t => rfl
      rw [advance, hw]

/-- A message of the request a copy waits for. -/
theorem Copy.advance_waiting {p : Packet} {q : Claim} {hasData granted : Bool}
    (h : q.await = .waiting p.origin hasData granted) : (claimed q).advance p
      = .claimed { q with await := .learn p.origin hasData granted p.msg.mtype } := by
  rw [advance, h, Await.advance, if_pos rfl]

/-- A message tells a copy nothing about another request. -/
theorem Copy.advance_awaits_ne {p : Packet} (h : p.origin ≠ o) :
    (c.advance p).awaits o = c.awaits o := by
  cases hw : c.awaits p.origin with
  | none => rw [advance_eq hw]
  | some w =>
      obtain ⟨q, rfl, hq⟩ := awaits_eq_some.mp hw
      rw [advance_waiting hq]
      have hlearn : ∀ w' : Await, (∀ hd g, w' ≠ .waiting o hd g) →
          (claimed { q with await := w' }).awaits o = none := by
        intro w' hne
        cases ha : (claimed { q with await := w' }).awaits o with
        | none => rfl
        | some v =>
            obtain ⟨q', hq', hv⟩ := awaits_eq_some.mp ha
            cases hq'
            exact absurd hv (hne _ _)
      rw [hlearn, hlearn q.await]
      · intro hd g hc
        rw [hq] at hc
        cases hc
        exact h rfl
      · intro hd g hc
        unfold Await.learn at hc
        split at hc <;> (try split at hc) <;> cases hc
        all_goals exact h rfl

/-- What a copy knows after an answer to its request: the grant that follows the data, or the
data that follows the grant, ends the wait, and so does every other answer. -/
theorem Copy.awaits_advance {p : Packet} {hasData granted : Bool}
    (h : c.awaits p.origin = some (hasData, granted)) : (c.advance p).awaits p.origin
      = if p.msg.mtype.isShareddata then if granted then none else some (true, false)
        else if p.msg.mtype.isMissAggack then if hasData then none else some (false, true)
        else none := by
  obtain ⟨q, rfl, hq⟩ := awaits_eq_some.mp h
  rw [advance_waiting hq]
  generalize p.msg.mtype = t
  cases t with
  | dir2AppWriteMissShareddata => cases granted <;> simp [awaits, Await.learn, RawMessageType.isShareddata]
  | dir2AppWriteMissSharedAggackAck => cases hasData <;> simp [awaits, Await.learn, RawMessageType.isShareddata, RawMessageType.isMissAggack]
  | _ => rfl

/-- An answer that ends a request ends the wait for it; the data alone does not. -/
theorem Copy.waits_advance {p : Packet} (ht : p.msg.mtype.isAnswer)
    (h : p.msg.mtype.isOutcome → 1 ≤ c.waits p.origin) :
    (c.advance p).waits p.origin + (if p.msg.mtype.isOutcome then 1 else 0) = c.waits p.origin := by
  have hout : p.msg.mtype.isOutcome = !p.msg.mtype.isShareddata := by
    rw [RawMessageType.isOutcome, ht, Bool.true_and]
  rw [hout] at h ⊢
  cases hw : c.awaits p.origin with
  | none =>
      rw [advance_eq hw]
      simp only [waits, hw] at h ⊢
      cases hs : p.msg.mtype.isShareddata
      · exact absurd (h (by rw [hs]; rfl)) (by decide)
      · rfl
  | some w =>
      obtain ⟨hasData, granted⟩ := w
      simp only [waits, awaits_advance hw, hw, Option.elim_some] at h ⊢
      cases hs : p.msg.mtype.isShareddata
      · have hg : granted = false := by
          have := h (by rw [hs]; rfl)
          cases granted
          · rfl
          · cases this
        subst hg
        cases p.msg.mtype.isMissAggack <;> cases hasData <;> rfl
      · cases granted <;> rfl

theorem Copy.asked_advance {p : Packet} (hc : c.Asked n b) : (c.advance p).Asked n b := by
  cases hw : c.awaits p.origin with
  | none => rwa [advance_eq hw]
  | some w =>
      obtain ⟨q, rfl, hq⟩ := awaits_eq_some.mp hw
      rw [advance_waiting hq]
      obtain ⟨hnode, hblock, hτ, hk, ht, hboth⟩ := Claim.Asked.origin (q := q) hc _ _ _ hq
      refine ⟨hc.isRequest, fun o hasData granted ho => ?_⟩
      have hlearn : p.origin = o ∧ (hasData && granted) = false := by
        simp only [Await.learn] at ho
        split at ho <;> (try split at ho) <;> cases ho <;> simp_all
      exact hlearn.1 ▸ ⟨hnode, hblock, hτ, hk, ht, hlearn.2⟩

end Moves

/-! ## The fabric under the protocol -/

namespace Protocol

variable {qNum : ℕ} {p : Protocol}

theorem fabric_reachable (h : (protocol qNum).Reachable p) :
    (Ting.fabric qNum).Reachable p.fabric := by
  refine invariant (P := fun p => (Ting.fabric qNum).Reachable p.fabric)
    (fun p hp => .init hp.fabric) (fun p a p' _ hr hs => ?_) h
  cases hs with
  | internal ha hf => exact .step hr trivial hf
  | turn h | apply hh h => exact hr
  | @request m c hm ht h =>
      exact .step (a := .inject m) hr trivial (if_pos hm)
  | @receive n τ i k hi h =>
      exact .step (a := .pop (.app n τ)) hr trivial (by simp [Ting.fabric, Fabric.step, hi]; rfl)
  | @take n a i k hn hi h =>
      exact .step (a := .pop (.sys n a)) hr trivial (by simp [Ting.fabric, Fabric.step, hi])

theorem fabricInv (h : (protocol qNum).Reachable p) : FabricInv p.fabric :=
  fabric_inv (fabric_reachable h)

/-- A request adds its own weight to a ledger. -/
theorem value_request {b : Block} (L : Ledger b) (m : CtrlMsg) (c : Copy) :
    L.value (p.afterRequest m c).fabric
      = L.value p.fabric + L.flight ⟨.net, ⟨(p.origin m).ticket, cacheCtrlToNet m⟩⟩ :=
  L.value_inject _ _

/-- Every claim is as its request describes it. -/
theorem asked (h : (protocol qNum).Reachable p) (n : NodeId) (b : Block) :
    (p.copies n b).Asked n b := by
  revert n b
  refine invariant (P := fun p => ∀ n b, (p.copies n b).Asked n b)
    (fun p hp n b => ?_) (fun p a p' _ ih hs k d => ?_) h
  · rw [hp.copies]
    trivial
  cases hs with
  | internal ha hf => exact ih k d
  | take hn hi hf => exact ih k d
  | @turn n b c ht =>
      rw [setCopy_copies]
      split
      · exact ht.asked
      · exact ih k d
  | @request m c hm ht hc =>
      show ((p.setCopy m.reqClineNodeID m.block c).copies k d).Asked k d
      rw [setCopy_copies]
      split
      next hkd =>
        obtain ⟨rfl, rfl⟩ := hkd
        obtain ⟨q, rfl, hw, hτ, hk, -⟩ := Copy.ask_eq hc
        refine ⟨hk ▸ hm, fun o hasData granted ho => ?_⟩
        rw [hw] at ho
        cases ho
        exact ⟨rfl, rfl, hτ.symm, hk.symm, ht, rfl⟩
      next => exact ih k d
  | @receive n τ i m hi hf =>
      show ((p.setCopy n m.msg.block _).copies k d).Asked k d
      rw [setCopy_copies]
      split
      next hkd =>
        obtain ⟨rfl, rfl⟩ := hkd
        exact Copy.asked_advance (ih k m.msg.block)
      next => exact ih k d
  | @apply n a m c hh hc =>
      show ((p.setCopy n m.msg.block c).copies k d).Asked k d
      rw [setCopy_copies]
      split
      next hkd =>
        obtain ⟨rfl, rfl⟩ := hkd
        exact (Copy.obey_awaits (o := m.origin) hc (ih k m.msg.block)).1
      next => exact ih k d

/-- A ledger that no internal step and no request makes positive stays zero. -/
theorem ledger_zero {b : Block} {L : Ledger b}
    (hinit : ∀ e : DirDataE, e.IsInit → L.entry e none = 0)
    (hint : ∀ f f', FabricInv f → BlockStep b f f' → L.value f = 0 → L.value f' = 0)
    (hreq : ∀ i m, m.mtype.isRequest = true → m.clineTag = m.block.getTag →
      L.flight ⟨.net, ⟨⟨i, m.mtype⟩, cacheCtrlToNet m⟩⟩ = 0)
    (h : (protocol qNum).Reachable p) : L.value p.fabric = 0 := by
  refine invariant (P := fun p => L.value p.fabric = 0)
    (fun p hp => ?_) (fun p a p' hr ih hs => ?_) h
  · rw [L.value_init hp.fabric]
    exact hinit _ (hp.fabric.dir b)
  cases hs with
  | internal ha hf => exact hint _ _ (fabricInv hr) ((fabricInv hr).blockStep ha hf b) ih
  | turn ht | apply hh hc => exact ih
  | request hm ht hc =>
      rw [value_request, ih, Nat.zero_add]
      exact hreq _ _ hm ht
  | receive hi hf | take hn hi hf =>
      have := L.value_pop hf
      show L.value (Fabric.afterPop _ _) = 0
      omega

theorem mismatched (h : (protocol qNum).Reachable p) (b : Block) :
    (Ledger.mismatched b).value p.fabric = 0 := by
  refine ledger_zero (fun e he => ?_) (fun f f' _ hs h0 => hs.mismatched h0)
    (fun i m hm _ => Ledger.mismatched_flight ?_) h
  · exact DirDataE.pends_stable (by rw [he.1]; rfl)
  · show m.mtype.derivedFrom m.mtype = true
    revert hm
    generalize m.mtype = t
    revert t
    decide

theorem tagged (h : (protocol qNum).Reachable p) (b : Block) :
    (Ledger.flawed Header.tagged b).value p.fabric = 0 := by
  refine ledger_zero (fun e he => ?_) (fun f f' _ hs h0 => hs.flawed h0)
    (fun i m _ ht => Ledger.flawed_of ?_) h
  · exact DirDataE.pends_stable (by rw [he.1]; rfl)
  · exact decide_eq_true ht

/-! ## One answer for each request -/

/-- The fabric owes a copy that waits one answer, and nobody else any. -/
theorem tokens (h : (protocol qNum).Reachable p) (o : Origin) :
    (Ledger.seeking o).value p.fabric + (Ledger.answering o).value p.fabric
      = (p.copies o.node o.block).waits o := by
  rw [← Ledger.value_add]
  revert o
  refine invariant (P := fun p => ∀ o : Origin,
    (Ledger.seeking o + Ledger.answering o).value p.fabric = (p.copies o.node o.block).waits o)
    (fun p hp o => ?_) (fun p a p' hr ih hs o => ?_) h
  · rw [hp.copies, Ledger.value_init _ hp.fabric, Ledger.token_entry]
    exact DirDataE.pends_stable (by rw [(hp.fabric.dir _).1]; rfl)
  cases hs with
  | internal ha hf =>
      have := ((fabricInv hr).blockStep ha hf o.block).tokens
      rw [← Ledger.value_add, ← Ledger.value_add] at this
      exact this.trans (ih o)
  | @turn n b c ht =>
      show _ = ((p.setCopy n b c).copies _ _).waits o
      rw [setCopy_copies, setCopy_fabric, ih o]
      split
      next hob =>
        simp only [Copy.waits]
        rw [hob.1, hob.2, (ht.awaits (o := o)).1, (ht.awaits (o := o)).2]
      next => rfl
  | @request m c hm ht hc =>
      have hnew : (Ledger.seeking o + .answering o).flight
          ⟨.net, ⟨(p.origin m).ticket, cacheCtrlToNet m⟩⟩ = ind (p.origin m = o) :=
        Ledger.token_of (by simp [RawMessageType.isToken, cacheCtrlToNet, hm])
      have hask := Copy.ask_awaits (o := o) hc
      show _ = ((p.setCopy m.reqClineNodeID m.block c).copies _ _).waits o
      rw [value_request, hnew, ih o, setCopy_copies]
      split
      next hob =>
        simp only [Copy.waits]
        rw [hob.1, hob.2, hask.1, hask.2]
        split
        next ho => rw [ind_of ho]; rfl
        next ho => rw [ind_of_not ho]; rfl
      next hob =>
        rw [ind_of_not fun ho => hob (by rw [← ho]; exact ⟨rfl, rfl⟩)]
        rfl
  | @receive n τ i k hi hf =>
      have hl := (Ledger.seeking o + .answering o).value_pop hf
      have hroute := (fabricInv hr).routed _ (List.mem_of_getElem? hf)
      show _ = ((p.setCopy n k.msg.block _).copies _ _).waits o
      rw [setCopy_copies]
      rw [Ledger.token_app, ih o] at hl
      by_cases ho : k.origin = o
      · subst ho
        have hn : k.origin.node = n := hroute.2.1
        have hone : k.stems k.origin = 1 := ind_of rfl
        rw [hn, hone] at hl
        rw [hn, if_pos ⟨rfl, rfl⟩]
        have hadv := Copy.waits_advance (c := p.copies n k.msg.block) hroute.1
          (fun ht => by rw [if_pos ht] at hl; exact (Nat.le_add_left 1 _).trans hl.le)
        exact Nat.add_right_cancel (hl.trans hadv.symm)
      · have hz : k.stems o = 0 := ind_of_not ho
        rw [hz, ite_self] at hl
        refine Eq.trans hl ?_
        split
        next hob =>
          simp only [Copy.waits]
          rw [hob.1, hob.2, Copy.advance_awaits_ne ho]
        next => rfl
  | @take n a i k hn hi hf =>
      have hl := (Ledger.seeking o + .answering o).value_pop hf
      have hroute := (fabricInv hr).routed _ (List.mem_of_getElem? hf)
      rw [Ledger.token_sys hroute.1] at hl
      exact hl.trans (ih o)
  | @apply n a k c hh hc =>
      show _ = ((p.setCopy n k.msg.block c).copies _ _).waits o
      rw [setCopy_copies]
      split
      next hob =>
        refine (ih o).trans ?_
        simp only [Copy.waits]
        rw [hob.1, hob.2, (Copy.obey_awaits hc (asked hr n k.msg.block)).2]
      next => exact ih o

/-- The same, of the copy of a given node and block. -/
theorem tokens_at (h : (protocol qNum).Reachable p) {o : Origin} {n : NodeId} {b : Block}
    (hn : o.node = n) (hb : o.block = b) :
    (Ledger.seeking o).value p.fabric + (Ledger.answering o).value p.fabric
      = (p.copies n b).waits o := by
  subst hn hb
  exact tokens h o

/-! ## The data of a write miss on a shared block -/

/-- The grants of `o` whose data has been sent. -/
def dataDue (o : Origin) : Ledger o.block :=
  .pending (· = .writeMissShared) o + .descending Flight.missAggack o

/-- They are among the answers owed, and differ from every other answer. -/
theorem dataDue_le (s : Fabric) (o : Origin) :
    (dataDue o).value s + (Ledger.descending (fun f => f.answers && !f.missAggack) o).value s
      ≤ (Ledger.seeking o + .answering o).value s := by
  rw [← Ledger.value_add]
  refine Ledger.value_mono (fun f => ?_) (fun _ => Nat.zero_le _) (fun _ => Nat.zero_le _)
    (fun e T => ?_) s
  · show 0 + (if f.missAggack then _ else 0) + (if f.answers && !f.missAggack then _ else 0)
      ≤ (if f.seeks then _ else 0) + 0 + (if f.answers then _ else 0)
    have hans : f.missAggack = true → f.answers = true := by
      show f.packet.msg.mtype.isMissAggack = true → f.packet.msg.mtype.isOutcome = true
      generalize f.packet.msg.mtype = t
      revert t
      decide
    cases hm : f.missAggack <;> cases ha : f.answers <;> simp_all
  · rw [Ledger.token_entry]
    show DirDataE.pends _ e T + 0 + 0 ≤ _
    unfold DirDataE.pends
    refine ind_mono fun hc => ⟨hc.1, ?_⟩
    cases T with
    | none => exact hc.2
    | some T =>
        have hc := hc.2
        simp only [Option.any_some, Bool.and_eq_true, decide_eq_true_eq] at hc ⊢
        rw [hc.1]
        exact ⟨rfl, hc.2⟩

/-- A thread takes only what a copy of its node waits for, given that data and grants keep
step. -/
theorem expects (h : (protocol qNum).Reachable p) {n : NodeId} {τ : ThreadId} {k : Packet}
    (hf : ⟨.app n τ, k⟩ ∈ p.fabric.flights)
    (hdata : (Ledger.descending Flight.shareddata k.origin).value p.fabric
        + (p.copies n k.msg.block).hasData k.origin
      = (dataDue k.origin).value p.fabric + (p.copies n k.msg.block).hasGrant k.origin) :
    ∃ hasData granted, (p.copies n k.msg.block).awaits k.origin = some (hasData, granted) ∧
      (k.msg.mtype.isShareddata → hasData = false) ∧
      (k.msg.mtype.isOutcome → granted = false ∧
        (k.msg.mtype.isMissAggack = false → hasData = false)) := by
  have hroute := (fabricInv h).routed _ hf
  have htokens := tokens h k.origin
  have hle := dataDue_le p.fabric k.origin
  have hone : k.stems k.origin = 1 := ind_of rfl
  rw [Ledger.value_add, htokens, show k.origin.node = n from hroute.2.1] at hle
  rw [show k.origin.node = n from hroute.2.1] at htokens
  have hwaits : ∀ {w : ℕ}, 1 ≤ w → w ≤ (p.copies n k.msg.block).waits k.origin →
      ∃ hasData, (p.copies n k.msg.block).awaits k.origin = some (hasData, false) := by
    intro w hw hle
    exact Copy.waits_pos (Nat.lt_of_lt_of_le hw hle)
  change _ ≤ (p.copies n k.msg.block).waits k.origin at hle
  change _ = (p.copies n k.msg.block).waits k.origin at htokens
  cases hs : k.msg.mtype.isShareddata
  · have hout : k.msg.mtype.isOutcome = true := by
      rw [RawMessageType.isOutcome, hroute.1, hs]
      rfl
    have hans : 1 ≤ (Ledger.answering k.origin).value p.fabric := by
      have := (Ledger.answering k.origin).flight_le hf
      have hw : (Ledger.answering k.origin).flight ⟨.app n τ, k⟩ = k.stems k.origin := if_pos hout
      omega
    obtain ⟨hasData, hw⟩ := hwaits hans (by omega)
    refine ⟨hasData, false, hw, (fun hc => by cases hc), fun _ => ⟨rfl, fun hm => ?_⟩⟩
    have hother := (Ledger.descending (fun f => f.answers && !f.missAggack) k.origin).flight_le hf
    have hself : (Ledger.descending (fun f => f.answers && !f.missAggack) k.origin).flight
        ⟨.app n τ, k⟩ = k.stems k.origin := if_pos (by
      show (k.msg.mtype.isOutcome && !k.msg.mtype.isMissAggack) = true
      rw [hout, hm]
      rfl)
    simp only [Copy.waits, Copy.hasData, Copy.hasGrant, hw] at hle hdata
    cases hasData
    · rfl
    · change _ + 1 = _ + 0 at hdata
      change _ ≤ 1 at hle
      omega
  · have hsd := (Ledger.descending Flight.shareddata k.origin).flight_le hf
    have hself : (Ledger.descending Flight.shareddata k.origin).flight ⟨.app n τ, k⟩
        = k.stems k.origin := if_pos hs
    have hnot : k.msg.mtype.isOutcome = false := by
      rw [RawMessageType.isOutcome, hs, hroute.1]
      rfl
    by_cases hg : 0 < (p.copies n k.msg.block).hasGrant k.origin
    · obtain ⟨hasData, hw⟩ := Copy.hasGrant_pos hg
      obtain ⟨q, hc, hq⟩ := Copy.awaits_eq_some.mp hw
      have hasked := asked h n k.msg.block
      rw [hc] at hasked
      have hboth := (Claim.Asked.origin (q := q) hasked _ _ _ hq).2.2.2.2.2
      rw [Bool.and_true] at hboth
      exact ⟨hasData, true, hw, fun _ => hboth, (fun ho => by rw [hnot] at ho; cases ho)⟩
    · obtain ⟨hasData, hw⟩ := hwaits (w := (dataDue k.origin).value p.fabric) (by omega) (by omega)
      refine ⟨hasData, false, hw, fun _ => ?_, (fun ho => by rw [hnot] at ho; cases ho)⟩
      simp only [Copy.waits, Copy.hasData, Copy.hasGrant, hw] at hle hdata
      cases hasData
      · rfl
      · change _ + 1 = _ + 0 at hdata
        change _ ≤ 1 at hle
        omega

end Protocol

/-- What an answer does to the two halves of the answer of a write miss on a shared block. -/
theorem Copy.data_advance {c : Copy} {k : Packet} {hasData granted : Bool}
    (hw : c.awaits k.origin = some (hasData, granted))
    (hs : k.msg.mtype.isShareddata → hasData = false)
    (ho : k.msg.mtype.isOutcome → granted = false ∧ (k.msg.mtype.isMissAggack = false →
      hasData = false)) (ht : k.msg.mtype.isAnswer) :
    c.hasGrant k.origin + (c.advance k).hasData k.origin
        + (if k.msg.mtype.isMissAggack then 1 else 0)
      = c.hasData k.origin + (if k.msg.mtype.isShareddata then 1 else 0)
        + (c.advance k).hasGrant k.origin := by
  have hex : k.msg.mtype.isMissAggack = true → k.msg.mtype.isShareddata = false := by
    generalize k.msg.mtype = t
    revert t
    decide
  have hout : k.msg.mtype.isOutcome = !k.msg.mtype.isShareddata := by
    rw [RawMessageType.isOutcome, ht, Bool.true_and]
  simp only [Copy.hasGrant, Copy.hasData, Copy.awaits_advance hw, hw, Option.elim_some]
  rw [hout] at ho
  cases hsd : k.msg.mtype.isShareddata
  · obtain ⟨rfl, hother⟩ := ho (by rw [hsd]; rfl)
    cases hma : k.msg.mtype.isMissAggack
    · rw [hother hma]
      rfl
    · cases hasData <;> rfl
  · have hma : k.msg.mtype.isMissAggack = false := by
      cases hma : k.msg.mtype.isMissAggack
      · rfl
      · rw [hex hma] at hsd
        cases hsd
    rw [hs hsd, hma]
    cases granted <;> rfl

namespace Protocol

variable {qNum : ℕ} {p : Protocol}

theorem data_setCopy {n : NodeId} {b : Block} {c : Copy} {o : Origin}
    (hd : c.hasData o = (p.copies n b).hasData o) (hg : c.hasGrant o = (p.copies n b).hasGrant o)
    {k : NodeId} {d : Block} :
    ((p.setCopy n b c).copies k d).hasData o = (p.copies k d).hasData o ∧
      ((p.setCopy n b c).copies k d).hasGrant o = (p.copies k d).hasGrant o := by
  rw [setCopy_copies]
  split
  next h =>
    obtain ⟨rfl, rfl⟩ := h
    exact ⟨hd, hg⟩
  next => exact ⟨rfl, rfl⟩

/-- The data of a write miss on a shared block and its grant keep step: what has come of one
and not of the other is still on its way. -/
theorem data (h : (protocol qNum).Reachable p) (o : Origin) :
    (Ledger.descending Flight.shareddata o).value p.fabric + (p.copies o.node o.block).hasData o
      = (dataDue o).value p.fabric + (p.copies o.node o.block).hasGrant o := by
  revert o
  refine invariant (P := fun p => ∀ o : Origin,
    (Ledger.descending Flight.shareddata o).value p.fabric + (p.copies o.node o.block).hasData o
      = (dataDue o).value p.fabric + (p.copies o.node o.block).hasGrant o)
    (fun p hp o => ?_) (fun p a p' hr ih hs o => ?_) h
  · rw [hp.copies, Ledger.value_init _ hp.fabric, Ledger.value_init _ hp.fabric]
    have hz : (dataDue o).entry (p.fabric.dir o.block) none = 0 :=
      DirDataE.pends_stable (by rw [(hp.fabric.dir _).1]; rfl)
    rw [hz]
    rfl
  have hquiet : ∀ {f : Flight}, f.packet.msg.mtype.notShared = true →
      (Ledger.descending Flight.shareddata o).flight f = 0 ∧ (dataDue o).flight f = 0 := by
    intro f hf
    obtain ⟨h1, h2⟩ := Flight.notShared (d := RawMessageType.notShared) hf fun _ h => h
    refine ⟨Ledger.descending_zero h1, ?_⟩
    show 0 + (Ledger.descending Flight.missAggack o).flight f = 0
    rw [Ledger.descending_zero h2]
  cases hs with
  | @internal a f ha hf =>
      have hs : (Ledger.descending Flight.shareddata o).value f + (dataDue o).value p.fabric
          = (Ledger.descending Flight.shareddata o).value p.fabric + (dataDue o).value f :=
        ((fabricInv hr).blockStep ha hf o.block).shareddata
      have hi := ih o
      show (Ledger.descending Flight.shareddata o).value f + (p.copies o.node o.block).hasData o
        = (dataDue o).value f + (p.copies o.node o.block).hasGrant o
      omega
  | @turn n b c ht =>
      obtain ⟨hd, hg⟩ := data_setCopy (p := p) (n := n) (b := b) (c := c) (o := o)
        (k := o.node) (d := o.block)
        (by rw [Copy.hasData, (ht.awaits (o := o)).1, Copy.hasData, ht.awaits.2])
        (by rw [Copy.hasGrant, (ht.awaits (o := o)).1, Copy.hasGrant, ht.awaits.2])
      rw [hd, hg]
      exact ih o
  | @request m c hm ht hc =>
      obtain ⟨hnone, hnew⟩ := Copy.ask_awaits (o := o) hc
      obtain ⟨hd, hg⟩ := data_setCopy (p := p) (n := m.reqClineNodeID) (b := m.block) (c := c)
        (o := o) (k := o.node) (d := o.block) (by rw [Copy.hasData, hnew, Copy.hasData, hnone]; split <;> rfl)
        (by rw [Copy.hasGrant, hnew, Copy.hasGrant, hnone]; split <;> rfl)
      have hclass : ∀ t : RawMessageType, t.isRequest = true → t.notShared = true := by decide
      obtain ⟨hz, hz'⟩ := hquiet (f := ⟨.net, ⟨(p.origin m).ticket, cacheCtrlToNet m⟩⟩)
        (hclass _ hm)
      show _ + ((p.setCopy _ _ c).copies _ _).hasData o = _ + ((p.setCopy _ _ c).copies _ _).hasGrant o
      rw [value_request, value_request, hz, hz', hd, hg]
      exact ih o
  | @receive n τ i k hi hf =>
      have hmem := List.mem_of_getElem? hf
      have hroute := (fabricInv hr).routed _ hmem
      have hl := (Ledger.descending Flight.shareddata o).value_pop hf
      have hl' := (dataDue o).value_pop hf
      have hdue : (dataDue o).flight ⟨.app n τ, k⟩
          = if k.msg.mtype.isMissAggack then k.stems o else 0 := Nat.zero_add _
      rw [hdue] at hl'
      change _ + (if k.msg.mtype.isShareddata then k.stems o else 0) = _ at hl
      change (Ledger.descending Flight.shareddata o).value (p.fabric.afterPop i)
          + ((p.setCopy n k.msg.block _).copies _ _).hasData o
        = (dataDue o).value (p.fabric.afterPop i) + ((p.setCopy n k.msg.block _).copies _ _).hasGrant o
      by_cases ho : k.origin = o
      · subst ho
        have hn : k.origin.node = n := hroute.2.1
        have hi := ih k.origin
        rw [hn] at hi ⊢
        obtain ⟨hasData, granted, hw, hs, hout⟩ := expects hr hmem hi
        have hadv := Copy.data_advance hw hs hout hroute.1
        have hone : k.stems k.origin = 1 := ind_of rfl
        rw [hone] at hl hl'
        rw [setCopy_copies, if_pos ⟨rfl, rfl⟩]
        change _ + (p.copies n k.msg.block).hasData k.origin
          = _ + (p.copies n k.msg.block).hasGrant k.origin at hi
        omega
      · have hz : k.stems o = 0 := ind_of_not ho
        rw [hz, ite_self, Nat.add_zero] at hl hl'
        obtain ⟨hd, hg⟩ := data_setCopy (p := p) (n := n) (b := k.msg.block)
          (c := (p.copies n k.msg.block).advance k) (o := o) (k := o.node) (d := o.block)
          (by rw [Copy.hasData, Copy.advance_awaits_ne ho, Copy.hasData])
          (by rw [Copy.hasGrant, Copy.advance_awaits_ne ho, Copy.hasGrant])
        rw [hl, hl', hd, hg]
        exact ih o
  | @take n a i k hn hi hf =>
      have hroute := (fabricInv hr).routed _ (List.mem_of_getElem? hf)
      have hclass : ∀ t : RawMessageType, t.isOrder = true → t.notShared = true := by decide
      obtain ⟨hz, hz'⟩ := hquiet (f := ⟨.sys n a, k⟩) (hclass _ hroute.1)
      have hl := (Ledger.descending Flight.shareddata o).value_pop hf
      have hl' := (dataDue o).value_pop hf
      rw [hz] at hl
      rw [hz'] at hl'
      have hi := ih o
      rw [← hl, ← hl'] at hi
      exact hi
  | @apply n a k c hh hc =>
      have hsame := (Copy.obey_awaits (o := o) hc (asked hr n k.msg.block)).2
      obtain ⟨hd, hg⟩ := data_setCopy (p := p) (n := n) (b := k.msg.block) (c := c) (o := o)
        (k := o.node) (d := o.block) (by rw [Copy.hasData, hsame, Copy.hasData]) (by rw [Copy.hasGrant, hsame, Copy.hasGrant])
      show _ + ((p.setCopy _ _ c).copies _ _).hasData o = _ + ((p.setCopy _ _ c).copies _ _).hasGrant o
      rw [hd, hg]
      exact ih o

/-- An answer in transit is one that its request can have. -/
theorem reply_of_flight (h : (protocol qNum).Reachable p) {f : Flight} (hf : f ∈ p.fabric.flights)
    (hans : f.packet.msg.mtype.isAnswer) : f.packet.ticket.kind.isReplyTo f.packet.msg.mtype := by
  have hle := (Ledger.mismatched f.packet.msg.block).flight_le hf
  rw [mismatched h f.packet.msg.block] at hle
  have hclass : ∀ t : RawMessageType, t.isAnswer = true → ∀ k : RawMessageType,
      k.derivedFrom t = true → k.isReplyTo t = true := by decide
  refine hclass _ hans _ ?_
  by_contra hne
  have hone : (Ledger.mismatched f.packet.msg.block).flight f = 1 := (if_neg hne).trans (ind_of rfl)
  omega

/-- Whatever a thread takes from its queue is an answer that a copy of its own waits for, of a
type that its request can have. -/
theorem receives (h : (protocol qNum).Reachable p) {n : NodeId} {τ : ThreadId} {k : Packet}
    (hf : ⟨.app n τ, k⟩ ∈ p.fabric.flights) :
    ∃ q hasData granted, p.copies n k.msg.block = .claimed q ∧ q.thread = τ ∧
      q.await = .waiting k.origin hasData granted ∧
      (p.copies n k.msg.block).awaits k.origin = some (hasData, granted) ∧
      q.kind = k.ticket.kind ∧ q.kind.isReplyTo k.msg.mtype ∧ k.msg.header.tagged ∧
      (k.msg.mtype.isShareddata → hasData = false) ∧
      (k.msg.mtype.isOutcome → granted = false ∧
        (k.msg.mtype.isMissAggack = false → hasData = false)) := by
  have hroute := (fabricInv h).routed _ hf
  have hdata := data h k.origin
  rw [show k.origin.node = n from hroute.2.1] at hdata
  obtain ⟨hasData, granted, hw, hs, hout⟩ := expects h hf hdata
  obtain ⟨q, hc, hq⟩ := Copy.awaits_eq_some.mp hw
  have hasked := asked h n k.msg.block
  rw [hc] at hasked
  obtain ⟨-, -, hτ, hk, ht, -⟩ := Claim.Asked.origin (q := q) hasked _ _ _ hq
  refine ⟨q, hasData, granted, hc, ?_, hq, hw, hk.symm, ?_, decide_eq_true ht, hs, hout⟩
  · rw [← hτ]
    exact hroute.2.2
  · rw [← hk]
    exact reply_of_flight h hf hroute.1

end Protocol

end Ting
