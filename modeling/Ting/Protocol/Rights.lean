/-
# `Ting.Protocol.Rights` — who may use a block, end to end

The conservation law of `Ting.Hls.Balance` closes at the hosts: the right a node's copy
stands for, and the grants on their way to it, equal what the directory's side holds for the
node, what is on its way to take it back, and what an agent has in hand to take it back, as
long as the copy has not been flagged (`rights`).  Everything a thread or an agent does to a
copy agrees with it.

Two consequences.  A revocation never finds a node without a copy, nor a grant a copy that
does not wait.  And a copy that was refused with `BITMAP_CHECK_FAIL` is flagged, or its
revocation is under way (`revoked_of_refused`).
-/
import Ting.Protocol.Answers

namespace Ting

open Total

/-! ## Weights of single messages -/

namespace CtrlMsg

variable {c d : RawMessageType → Bool} {n k : NodeId} {b e : Block} {m : CtrlMsg}

theorem forReq_self (hb : m.block = b) (hn : m.reqClineNodeID = n) :
    m.forReq c n b = (c m.mtype).toNat := by
  unfold forReq askedBy
  cases c m.mtype
  · rfl
  · exact ind_of ⟨hb, hn⟩

theorem forReq_other (h : ¬ (n = m.reqClineNodeID ∧ b = m.block)) : m.forReq c n b = 0 := by
  unfold forReq askedBy
  split
  · exact ind_of_not fun hc => h ⟨hc.2.symm, hc.1.symm⟩
  · rfl

theorem forAgent_self (hb : m.block = b) (hn : m.agentClineNodeID = n) :
    m.forAgent c n b = (c m.mtype).toNat := by
  unfold forAgent meantFor
  cases c m.mtype
  · rfl
  · exact ind_of ⟨hb, hn⟩

theorem forAgent_other (h : ¬ (n = m.agentClineNodeID ∧ b = m.block)) : m.forAgent c n b = 0 := by
  unfold forAgent meantFor
  split
  · exact ind_of_not fun hc => h ⟨hc.2.symm, hc.1.symm⟩
  · rfl

end CtrlMsg

/-! ## What the steps do to a copy -/

section Moves

variable {c c' : Copy}

/-- The answers a claim has had are answers to its request. -/
def Copy.Replied : Copy → Prop
  | claimed q => ∀ t, q.await = .answered t → q.kind.isReplyTo t ∧ t.isOutcome
  | _ => True

theorem Claim.right_answered {q : Claim} {t : RawMessageType} (h : q.await = .answered t) :
    q.right = if q.kind.isMiss then t.isGrant.toNat else (!t.isEvictAck).toNat := by
  rw [right, h, Await.right]

/-- A claim that ends well or badly leaves a right unless the flag has taken it away. -/
theorem Claim.right_settle (q : Claim) {st : Rest} (hst : st ≠ .invalid) (w : Option ThreadId) :
    (Copy.resting (q.settle st) w).right + q.flag.toNat = 1 := by
  unfold settle
  cases q.flag <;> cases st <;> first | rfl | exact absurd rfl hst

theorem Await.replied_learn {o : Origin} {hasData granted : Bool} {k t u : RawMessageType}
    (hr : k.isReplyTo t) (h : learn o hasData granted t = .answered u) :
    k.isReplyTo u ∧ u.isOutcome := by
  cases hsd : t.isShareddata
  · cases hma : t.isMissAggack
    · rw [learn_other hsd hma] at h
      cases h
      have hclass : ∀ k t : RawMessageType, k.isReplyTo t = true → t.isShareddata = false →
          t.isOutcome = true := by decide
      exact ⟨hr, hclass _ _ hr hsd⟩
    · have hclass : ∀ k t : RawMessageType, k.isReplyTo t = true → t.isMissAggack = true →
          k = .rWriteMiss ∧ t = .dir2AppWriteMissSharedAggackAck := by decide
      obtain ⟨rfl, rfl⟩ := hclass _ _ hr hma
      cases hasData <;> cases h
      exact ⟨rfl, rfl⟩
  · have hclass : ∀ k t : RawMessageType, k.isReplyTo t = true → t.isShareddata = true →
        k = .rWriteMiss ∧ t = .dir2AppWriteMissShareddata := by decide
    obtain ⟨rfl, rfl⟩ := hclass _ _ hr hsd
    cases granted <;> cases h
    exact ⟨rfl, rfl⟩

theorem Turn.replied (h : Turn c c') : c'.Replied := by
  cases h with
  | evict | claim => exact fun t hw => by cases hw
  | _ => trivial

/-- What a thread does to a copy on its own keeps its balance, as long as the flag takes away
no more than the copy stands for. -/
theorem Turn.rights (h : Turn c c') (hrep : c.Replied) (hflag : c.flagged.toNat ≤ c.right) :
    c.right + c'.flagged.toNat = c'.right + c.flagged.toNat := by
  cases h with
  | fill | reuse | discard => rfl
  | @park τ st hst | @evict τ st hst =>
      cases st
      · exact absurd rfl hst
      · rfl
      · rfl
  | claim τ hk =>
      rcases hk with ⟨rfl, hk⟩ | ⟨rfl, rfl⟩
      · exact (if_pos hk).symm
      · rfl
  | @granted q t hk hw ht =>
      obtain ⟨hr, ho⟩ := hrep t hw
      have hclass : ∀ k t : RawMessageType, k.isReplyTo t = true → t.isOutcome = true →
          t.isFail = false → k.isEvict = false →
          (if k.isMiss then t.isGrant.toNat else (!t.isEvictAck).toNat) = 1 := by decide
      have hright : q.right = 1 := by
        rw [q.right_answered hw]
        exact hclass _ _ hr ho ht hk
      have hgranted : q.kind.granted ≠ .invalid := by cases q.kind <;> decide
      have hsettle := q.right_settle hgranted none
      show q.right + 0 = _ + q.flag.toNat
      omega
  | @denied q t hk hw ht hf =>
      obtain ⟨hr, -⟩ := hrep t hw
      cases hmiss : q.kind.isMiss
      · have hclass : ∀ k t : RawMessageType, k.isReplyTo t = true → t.isFail = true →
            k.isEvict = false → k.isMiss = false → k.denied ≠ .invalid ∧ t.isEvictAck = false := by
          decide
        obtain ⟨hdenied, hack⟩ := hclass _ _ hr ht hk hmiss
        have hsettle := q.right_settle hdenied none
        have hright : q.right = 1 := by
          rw [q.right_answered hw, hmiss, hack]
          rfl
        show q.right + 0 = _ + q.flag.toNat
        omega
      · have hclass : ∀ k t : RawMessageType, t.isFail = true → k.isMiss = true →
            k.denied = .invalid ∧ t.isGrant = false := by decide
        obtain ⟨hdenied, hgrant⟩ := hclass _ _ ht hmiss
        have hright : q.right = 0 := by
          rw [q.right_answered hw, hmiss, hgrant]
          rfl
        have hrest : (Copy.resting (q.settle q.kind.denied) none).right = 0 := by
          rw [hdenied, Claim.settle, ite_self]
          rfl
        change q.flag.toNat ≤ q.right at hflag
        show q.right + 0 = _ + q.flag.toNat
        omega
  | @evicted q t hk hw ht =>
      have hclass : ∀ k : RawMessageType, k.isEvict = true → k.isMiss = false := by decide
      have hright : q.right = 0 := by
        rw [q.right_answered hw, hclass _ hk, ht]
        rfl
      change q.flag.toNat ≤ q.right at hflag
      show q.right + 0 = 0 + q.flag.toNat
      omega
  | @lost q hk hw hf =>
      have hclass : ∀ k : RawMessageType, k.isEvict = true → k.isMiss = false := by decide
      have hright : q.right = 1 := by
        rw [q.right_answered hw, hclass _ hk]
        rfl
      show q.right + 0 = 0 + q.flag.toNat
      rw [hright, hf]
      rfl
  | @restored q hk hw =>
      have hclass : ∀ k : RawMessageType, k.isEvict = true → k.isMiss = false := by decide
      have hright : q.right = 1 := by
        rw [q.right_answered hw, hclass _ hk]
        rfl
      have hrestored : q.restored ≠ .invalid := by
        unfold Claim.restored
        split <;> decide
      have hsettle := q.right_settle hrestored (some q.thread)
      show q.right + 0 = _ + q.flag.toNat
      omega

/-- A request neither gives nor takes a right. -/
theorem Copy.ask_rights {τ : ThreadId} {k : RawMessageType} {o : Origin}
    (h : c.ask τ k o = some c') : c'.right = c.right ∧ c'.flagged = c.flagged := by
  obtain ⟨q, rfl, hw, -, -, rfl⟩ := ask_eq h
  refine ⟨?_, rfl⟩
  show q.right = Claim.right { q with await := .unsent }
  rw [Claim.right, Claim.right, hw]
  rfl

/-- An answer gives the right that it grants, and takes the right whose release it confirms. -/
theorem Copy.advance_rights {p : Packet} {q : Claim} {hasData granted : Bool}
    (hc : c = .claimed q) (hq : q.await = .waiting p.origin hasData granted)
    (hr : q.kind.isReplyTo p.msg.mtype)
    (hs : p.msg.mtype.isShareddata → hasData = false)
    (ho : p.msg.mtype.isOutcome → granted = false ∧ (p.msg.mtype.isMissAggack = false →
      hasData = false)) :
    (c.advance p).right + p.msg.mtype.isEvictAck.toNat = c.right + p.msg.mtype.isGrant.toNat ∧
      (c.advance p).flagged = c.flagged := by
  subst hc
  rw [advance_waiting hq]
  refine ⟨?_, rfl⟩
  show Claim.right { q with await := _ } + _ = q.right + _
  simp only [Claim.right, hq]
  revert hr hs ho
  generalize p.msg.mtype = t, q.kind = k
  intro hr hs ho
  cases hsd : t.isShareddata
  · have hclass : ∀ k t : RawMessageType, k.isReplyTo t = true → t.isShareddata = false →
        t.isOutcome = true ∧ (Await.answered t).right k + t.isEvictAck.toNat
          = (if k.isMiss then 0 else 1) + t.isGrant.toNat := by decide
    obtain ⟨hout, hbal⟩ := hclass _ _ hr hsd
    obtain ⟨rfl, hother⟩ := ho hout
    cases hma : t.isMissAggack
    · rw [Await.learn_other hsd hma]
      exact hbal
    · have hclass : ∀ k t : RawMessageType, k.isReplyTo t = true → t.isMissAggack = true →
          k = .rWriteMiss ∧ t = .dir2AppWriteMissSharedAggackAck := by decide
      obtain ⟨rfl, rfl⟩ := hclass _ _ hr hma
      cases hasData <;> rfl
  · have hclass : ∀ k t : RawMessageType, k.isReplyTo t = true → t.isShareddata = true →
        k = .rWriteMiss ∧ t = .dir2AppWriteMissShareddata := by decide
    obtain ⟨rfl, rfl⟩ := hclass _ _ hr hsd
    rw [hs rfl]
    cases granted <;> rfl

/-- An order that is carried out takes the right it revokes, or flags the copy, unless it finds
no copy. -/
theorem Copy.obey_rights {t : RawMessageType} (h : c.obey t = some c')
    (hne : c = .absent → t.revokes = false) :
    c'.right + t.revokes.toNat + c.flagged.toNat = c.right + c'.flagged.toNat := by
  cases c with
  | absent =>
      cases h
      rw [hne rfl]
      rfl
  | resting st w =>
      have hclass : ∀ t : RawMessageType, (t.isSharedOrder = true → t.revokes = true) ∧
          (t.downgrades = true → t.revokes = false) ∧ (t.revokesDirty = true → t.revokes = true) := by
        decide
      obtain ⟨hshared, hdown, hdirty⟩ := hclass t
      obtain ⟨st', rfl, ⟨rfl, hs, rfl⟩ | ⟨rfl, hs, rfl⟩ | ⟨rfl, -, hs, rfl⟩⟩ := obey_resting h
      · rw [hshared hs]
        rfl
      · rw [hdown hs]
        rfl
      · rw [hdirty hs]
        rfl
  | claimed q =>
      obtain ⟨hf, ⟨hr, rfl⟩ | ⟨hr, -, -, -, rfl⟩⟩ := obey_claimed h
      · show q.right + _ + q.flag.toNat = q.right + 1
        rw [hr, hf]
        rfl
      · show q.right + _ + q.flag.toNat = q.right + q.flag.toNat
        rw [hr]
        rfl

end Moves

namespace Protocol

variable {qNum : ℕ} {p : Protocol}

/-! ## What agents have in hand -/

/-- Agents hold well-formed orders for their own node. -/
theorem hands_order (h : (protocol qNum).Reachable p) {n : NodeId} {a : AgentId} {k : Packet}
    (hk : p.hands n a = some k) :
    k.msg.mtype.isOrder ∧ k.msg.agentClineNodeID = n ∧ k.msg.header.tagged := by
  revert n a k
  refine invariant (P := fun p => ∀ {n : NodeId} {a : AgentId} {k : Packet},
    p.hands n a = some k →
    k.msg.mtype.isOrder ∧ k.msg.agentClineNodeID = n ∧ k.msg.header.tagged)
    (fun p hp n a k hk => ?_) (fun p _ p' hr ih hs n a k hk => ?_) h
  · rw [hp.hands] at hk
    cases hk
  cases hs with
  | internal ha hf => exact ih hk
  | turn ht => exact ih hk
  | request hm ht hc => exact ih hk
  | receive hi hf => exact ih hk
  | @take n' a' i k' hn hi hf =>
      have hmem := List.mem_of_getElem? hf
      change (p.setHand n' a' (some k')).hands n a = some k at hk
      rw [setHand_hands] at hk
      split at hk
      next hna =>
        cases hk
        obtain ⟨hord, hnode⟩ := (fabricInv hr).routed _ hmem
        exact ⟨hord, hnode.trans hna.1.symm, Ledger.flawed_zero (tagged hr _) hmem rfl⟩
      next => exact ih hk
  | @apply n' a' k' c hh hc =>
      rw [setHand_hands] at hk
      split at hk
      next => cases hk
      next => exact ih hk

/-- The orders of class `c` for block `b` in the hands of the agents of node `n`. -/
def held (p : Protocol) (c : RawMessageType → Bool) (n : NodeId) (b : Block) : ℕ :=
  ∑ a, (p.hands n a).elim 0 (·.msg.forAgent c n b)

section Hands

variable {c : RawMessageType → Bool} {n : NodeId} {a : AgentId} {k : Packet}

/-- What goes into a hand is held; whatever node it is counted for, it is counted for `n`. -/
theorem held_setHand (x : Option Packet) (hx : ∀ k, x = some k → k.msg.agentClineNodeID = n)
    (hp : ∀ k, p.hands n a = some k → k.msg.agentClineNodeID = n) (m : NodeId) (b : Block) :
    (p.setHand n a x).held c m b + (p.hands n a).elim 0 (·.msg.forAgent c m b)
      = p.held c m b + x.elim 0 (·.msg.forAgent c m b) := by
  by_cases hm : m = n
  · subst hm
    have hsum := sum_update (fun _ x => Option.elim x 0 (fun k => k.msg.forAgent c m b))
      (p.hands m) a x
    simp only [held, setHand, Function.update_self]
    exact hsum
  · have hzero : ∀ x : Option Packet, (∀ k, x = some k → k.msg.agentClineNodeID = n) →
        x.elim 0 (·.msg.forAgent c m b) = 0 := by
      intro x hx
      cases x with
      | none => rfl
      | some k => exact CtrlMsg.forAgent_other fun hc => hm (hc.1.trans (hx k rfl))
    rw [hzero x hx, hzero _ hp]
    simp [held, setHand, hm]

end Hands

/-! ## Answers to a claim -/

theorem replied (h : (protocol qNum).Reachable p) (n : NodeId) (b : Block) :
    (p.copies n b).Replied := by
  revert n b
  refine invariant (P := fun p => ∀ n b, (p.copies n b).Replied)
    (fun p hp n b => ?_) (fun p _ p' hr ih hs k d => ?_) h
  · rw [hp.copies]
    trivial
  cases hs with
  | internal ha hf => exact ih k d
  | take hn hi hf => exact ih k d
  | @turn n b c ht =>
      rw [setCopy_copies]
      split
      next =>
        exact ht.replied
      next => exact ih k d
  | @request m c hm ht hc =>
      show ((p.setCopy m.reqClineNodeID m.block c).copies k d).Replied
      rw [setCopy_copies]
      split
      next =>
        obtain ⟨q, rfl, hw, -⟩ := Copy.ask_eq hc
        exact fun t ht => by rw [hw] at ht; cases ht
      next => exact ih k d
  | @receive n τ i m hi hf =>
      show ((p.setCopy n m.msg.block _).copies k d).Replied
      rw [setCopy_copies]
      split
      next hkd =>
        obtain ⟨q, hasData, granted, hc, -, hq, -, -, hr, -, hs, ho⟩ :=
          receives hr (List.mem_of_getElem? hf)
        rw [hc, Copy.advance_waiting hq]
        intro t ht
        exact Await.replied_learn hr ht
      next => exact ih k d
  | @apply n a m c hh hc =>
      show ((p.setCopy n m.msg.block c).copies k d).Replied
      rw [setCopy_copies]
      split
      next hkd =>
        have hold := ih n m.msg.block
        revert hc hold
        cases p.copies n m.msg.block with
        | absent => intro hc _; cases hc; trivial
        | resting st w =>
            intro hc _
            obtain ⟨st', rfl, -⟩ := Copy.obey_resting hc
            trivial
        | claimed q =>
            intro hc hold
            obtain ⟨-, ⟨-, rfl⟩ | ⟨-, -, -, -, rfl⟩⟩ := Copy.obey_claimed hc <;> exact hold
      next => exact ih k d

/-! ## The law -/

/-- A message of a class of answers that has been sent to node `n` about block `b` finds the
copy waiting for it. -/
theorem awaits_of_asked (h : (protocol qNum).Reachable p) {d : RawMessageType → Bool}
    (hd : ∀ t, d t = true → t.isOutcome = true) {n : NodeId} {b : Block}
    (hpos : 1 ≤ (Ledger.asked d n b).value p.fabric) :
    ∃ q o hasData, p.copies n b = .claimed q ∧ q.await = .waiting o hasData false ∧
      1 ≤ (Ledger.answering o).value p.fabric ∧ ∃ t, d t = true ∧ q.kind.isReplyTo t := by
  have htotal : 0 < total (Ledger.asked d n b).flight p.fabric.flights := by
    have hval : (Ledger.asked d n b).value p.fabric
        = total (Ledger.asked d n b).flight p.fabric.flights + ∑ _k : NodeId, 0 + 0 + 0 := rfl
    rw [Finset.sum_const_zero] at hval
    omega
  obtain ⟨f, hf, hw⟩ := exists_of_total_pos htotal
  obtain ⟨ht, rfl, rfl⟩ := CtrlMsg.forReq_pos hw
  have hout := hd _ ht
  have hle := (Ledger.answering f.packet.origin).flight_le hf
  have hone : (Ledger.answering f.packet.origin).flight f = 1 := (if_pos hout).trans (ind_of rfl)
  have htokens := tokens h f.packet.origin
  obtain ⟨hasData, hwaits⟩ := Copy.waits_pos (o := f.packet.origin)
    (c := p.copies f.packet.msg.reqClineNodeID f.packet.msg.block) (by
      change _ = (p.copies f.packet.msg.reqClineNodeID f.packet.msg.block).waits _ at htokens
      omega)
  obtain ⟨q, hc, hq⟩ := Copy.awaits_eq_some.mp hwaits
  have hasked := asked h f.packet.msg.reqClineNodeID f.packet.msg.block
  rw [hc] at hasked
  have hkind := (Claim.Asked.origin (q := q) hasked _ _ _ hq).2.2.2.1
  refine ⟨q, _, hasData, hc, hq, by omega, _, ht, ?_⟩
  rw [← hkind]
  exact reply_of_flight h hf (Bool.and_eq_true_iff.mp hout).1

/-- A copy that does not wait is not about to be granted anything. -/
theorem granting_zero (h : (protocol qNum).Reachable p) {n : NodeId} {b : Block}
    (hw : ∀ o, (p.copies n b).awaits o = none) : p.fabric.granting n b = 0 := by
  by_contra hne
  obtain ⟨q, o, hasData, hc, hq, -⟩ :=
    awaits_of_asked h (d := (·.isGrant)) (by decide) (Nat.pos_of_ne_zero hne)
  have := hw o
  rw [Copy.awaits_eq_some (w := (hasData, false)) |>.mpr ⟨q, hc, hq⟩] at this
  cases this

/-- The balance of rights, end to end. -/
theorem rights (h : (protocol qNum).Reachable p) (n : NodeId) (b : Block) :
    (p.copies n b).right + p.fabric.granting n b
      = p.fabric.owning n b + p.fabric.revoking n b + p.fabric.releasing n b
        + p.held (·.revokes) n b + (p.copies n b).flagged.toNat := by
  revert n b
  refine invariant (P := fun p => ∀ n b, (p.copies n b).right + p.fabric.granting n b
      = p.fabric.owning n b + p.fabric.revoking n b + p.fabric.releasing n b
        + p.held (·.revokes) n b + (p.copies n b).flagged.toNat)
    (fun p hp n b => ?_) (fun p _ p' hr ih hs n b => ?_) h
  · have hown : ((p.fabric.dir b).owned none) = ∅ := by
      rw [DirDataE.owned_eq (hp.fabric.dir b).1 (by decide)]
      exact Finset.filter_eq_empty_iff.mpr fun n _ => by simp [(hp.fabric.dir b).2.2 n]
    have howning : p.fabric.owning n b = 0 :=
      ((Ledger.owning n b).value_init hp.fabric).trans (ind_of_not (by rw [hown]; simp))
    have hrevoking : p.fabric.revoking n b = 0 := (Ledger.revoking n b).value_init hp.fabric
    have hreleasing : p.fabric.releasing n b = 0 :=
      (Ledger.asked (·.isEvictAck) n b).value_init hp.fabric
    have hgranting : p.fabric.granting n b = 0 :=
      (Ledger.asked (·.isGrant) n b).value_init hp.fabric
    have hheld : p.held (·.revokes) n b = 0 :=
      Finset.sum_eq_zero fun a _ => by rw [hp.hands n a]; rfl
    rw [hp.copies, howning, hrevoking, hreleasing, hgranting, hheld]
    rfl
  have hi := ih n b
  cases hs with
  | @internal a f ha hf =>
      have hrights := ((fabricInv hr).blockStep ha hf b).rights (n := n)
      show (p.copies n b).right + f.granting n b = f.owning n b + f.revoking n b + f.releasing n b
        + p.held (·.revokes) n b + (p.copies n b).flagged.toNat
      omega
  | @turn k d c ht =>
      show ((p.setCopy k d c).copies n b).right + p.fabric.granting n b = p.fabric.owning n b
        + p.fabric.revoking n b + p.fabric.releasing n b + p.held (·.revokes) n b
        + ((p.setCopy k d c).copies n b).flagged.toNat
      rw [setCopy_copies]
      split
      next hkd =>
        obtain ⟨rfl, rfl⟩ := hkd
        have hgrant := granting_zero hr fun o => (ht.awaits (o := o)).2
        have hturn := ht.rights (replied hr n b) (by omega)
        omega
      next => exact hi
  | @request m c hm ht hc =>
      obtain ⟨hright, hflag⟩ := Copy.ask_rights hc
      have hval : ∀ L : Ledger b, L.flight ⟨.net, ⟨(p.origin m).ticket, cacheCtrlToNet m⟩⟩ = 0 →
          L.value (p.afterRequest m c).fabric = L.value p.fabric := fun L hL => by
        rw [value_request, hL, Nat.add_zero]
      have howning := hval (.owning n b) (CtrlMsg.forReq_zero (d := (·.isRequest)) (by decide) hm)
      have hrevoking := hval (.revoking n b)
        (CtrlMsg.forAgent_zero (d := (·.isRequest)) (by decide) hm)
      have hreleasing := hval (.asked (·.isEvictAck) n b)
        (CtrlMsg.forReq_zero (d := (·.isRequest)) (by decide) hm)
      have hgranting := hval (.asked (·.isGrant) n b)
        (CtrlMsg.forReq_zero (d := (·.isRequest)) (by decide) hm)
      show ((p.setCopy _ _ c).copies n b).right + (Ledger.asked (·.isGrant) n b).value _
        = (Ledger.owning n b).value _ + (Ledger.revoking n b).value _
          + (Ledger.asked (·.isEvictAck) n b).value _ + p.held (·.revokes) n b
          + ((p.setCopy _ _ c).copies n b).flagged.toNat
      rw [howning, hrevoking, hreleasing, hgranting, setCopy_copies]
      split
      next hnb =>
        obtain ⟨rfl, rfl⟩ := hnb
        rw [hright, hflag]
        exact hi
      next => exact hi
  | @receive k τ i m hi' hf =>
      have hmem := List.mem_of_getElem? hf
      have hroute := (fabricInv hr).routed _ hmem
      have hreq : m.msg.reqClineNodeID = k := hroute.2.1
      have howning := (Ledger.owning n b).value_pop hf
      have hrevoking := (Ledger.revoking n b).value_pop hf
      have hreleasing := (Ledger.asked (·.isEvictAck) n b).value_pop hf
      have hgranting := (Ledger.asked (·.isGrant) n b).value_pop hf
      change _ + m.msg.forReq _ n b = _ at howning hreleasing hgranting
      change _ + m.msg.forAgent (·.revokes) n b = _ at hrevoking
      rw [CtrlMsg.forReq_zero (d := (·.isAnswer)) (by decide) hroute.1] at howning
      rw [CtrlMsg.forAgent_zero (d := (·.isAnswer)) (by decide) hroute.1] at hrevoking
      show ((p.setCopy k m.msg.block _).copies n b).right
          + (Ledger.asked (·.isGrant) n b).value (p.fabric.afterPop i)
        = (Ledger.owning n b).value (p.fabric.afterPop i)
          + (Ledger.revoking n b).value (p.fabric.afterPop i)
          + (Ledger.asked (·.isEvictAck) n b).value (p.fabric.afterPop i) + p.held (·.revokes) n b
          + ((p.setCopy k m.msg.block _).copies n b).flagged.toNat
      change _ + (Ledger.asked (·.isGrant) n b).value p.fabric
        = (Ledger.owning n b).value p.fabric + (Ledger.revoking n b).value p.fabric
          + (Ledger.asked (·.isEvictAck) n b).value p.fabric + _ + _ at hi
      rw [setCopy_copies]
      split
      next hnb =>
        obtain ⟨rfl, rfl⟩ := hnb
        obtain ⟨q, hasData, granted, hc, -, hq, -, -, hrep, -, hs, ho⟩ := receives hr hmem
        obtain ⟨hright, hflag⟩ := Copy.advance_rights hc hq hrep hs ho
        rw [CtrlMsg.forReq_self rfl hreq] at hreleasing hgranting
        rw [hflag]
        omega
      next hnb =>
        rw [CtrlMsg.forReq_other (hreq ▸ hnb)] at hreleasing hgranting
        omega
  | @take k a i m hn hi' hf =>
      have hmem := List.mem_of_getElem? hf
      have hroute := (fabricInv hr).routed _ hmem
      have howning := (Ledger.owning n b).value_pop hf
      have hrevoking := (Ledger.revoking n b).value_pop hf
      have hreleasing := (Ledger.asked (·.isEvictAck) n b).value_pop hf
      have hgranting := (Ledger.asked (·.isGrant) n b).value_pop hf
      change _ + m.msg.forReq _ n b = _ at howning hreleasing hgranting
      change _ + m.msg.forAgent (·.revokes) n b = _ at hrevoking
      rw [CtrlMsg.forReq_zero (d := (·.isOrder)) (by decide) hroute.1] at howning hreleasing hgranting
      have hheld := held_setHand (p := p) (c := (·.revokes)) (n := k) (a := a) (some m)
        (fun m' hm' => by cases hm'; exact hroute.2) (fun m' hm' => by rw [hn] at hm'; cases hm') n b
      rw [hn] at hheld
      show (p.copies n b).right + (Ledger.asked (·.isGrant) n b).value (p.fabric.afterPop i)
        = (Ledger.owning n b).value (p.fabric.afterPop i)
          + (Ledger.revoking n b).value (p.fabric.afterPop i)
          + (Ledger.asked (·.isEvictAck) n b).value (p.fabric.afterPop i)
          + (p.setHand k a (some m)).held (·.revokes) n b + (p.copies n b).flagged.toNat
      change _ + (Ledger.asked (·.isGrant) n b).value p.fabric
        = (Ledger.owning n b).value p.fabric + (Ledger.revoking n b).value p.fabric
          + (Ledger.asked (·.isEvictAck) n b).value p.fabric + _ + _ at hi
      change _ + 0 = _ + m.msg.forAgent (·.revokes) n b at hheld
      omega
  | @apply k a m c hh hc =>
      obtain ⟨hord, hnode, -⟩ := hands_order hr hh
      have hheld := held_setHand (p := p) (c := (·.revokes)) (n := k) (a := a) none
        (fun m' hm' => by cases hm') (fun m' hm' => by rw [hh] at hm'; cases hm'; exact hnode) n b
      rw [hh] at hheld
      change _ + m.msg.forAgent (·.revokes) n b = _ + 0 at hheld
      show ((p.setCopy k m.msg.block c).copies n b).right + p.fabric.granting n b
        = p.fabric.owning n b + p.fabric.revoking n b + p.fabric.releasing n b
          + (p.setHand k a none).held (·.revokes) n b
          + ((p.setCopy k m.msg.block c).copies n b).flagged.toNat
      rw [setCopy_copies]
      split
      next hnb =>
        obtain ⟨rfl, rfl⟩ := hnb
        rw [CtrlMsg.forAgent_self rfl hnode] at hheld
        have hobey := Copy.obey_rights hc fun habs => by
          have hgrant := granting_zero hr (n := n) (b := m.msg.block) fun o => by rw [habs]; rfl
          rw [habs] at hi
          change 0 + _ = _ + 0 at hi
          cases hrev : m.msg.mtype.revokes
          · rfl
          · rw [hrev] at hheld
            change _ + 1 = _ + 0 at hheld
            omega
        omega
      next hnb =>
        rw [CtrlMsg.forAgent_other (hnode ▸ hnb)] at hheld
        omega

end Protocol

end Ting
