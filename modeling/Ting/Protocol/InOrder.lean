/-
# `Ting.Protocol.InOrder` — orders that are carried out in order

At most one thing takes a node's right to a block away: the entry no longer counts the node, or an
invalidation is pending, or one has set the flag of its copy (`rights_le`).  So an invalidation
meets a copy that has a right, or that is about to be given one.

A downgrade does so only if no invalidation overtakes it at the node.  In runs in which none does
(`InOrder`), a copy that is not flagged may be written, or is about to be, just as long as the
directory's side says so.
-/
import Ting.Hls.Ownership
import Ting.Protocol.Writes

namespace Ting

open Total

theorem Copy.right_le_one {c : Copy} : c.right ≤ 1 := by
  cases c with
  | absent => exact Nat.zero_le _
  | resting st => cases st <;> first | exact Nat.zero_le _ | exact Nat.le_refl _
  | claimed q =>
      change q.await.right q.kind ≤ 1
      cases q.await <;> simp only [Await.right] <;> split <;> first | exact Bool.toNat_le _ | decide

/-- An eviction that stands for the right to write has not been downgraded. -/
theorem Claim.downgraded_of_writeRight (q : Claim) (hev : q.kind.isEvict) (h : 1 ≤ q.writeRight) :
    q.downgraded = false := by
  by_contra hd
  have hd := Bool.eq_true_of_not_eq_false hd
  rw [writeRight] at h
  cases hk : q.kind <;> rw [hk] at hev h <;> try cases hev
  · cases h
  · rw [hd] at h
    cases hw : q.await <;> rw [hw] at h <;> cases h

namespace Protocol

variable {qNum : ℕ} {p p' : Protocol} {a : ProtocolAction} {n : NodeId} {b : Block}

/-! ## One right -/

/-- At most one outcome of a class is on its way to a copy. -/
theorem asked_le_one (h : (protocol qNum).Reachable p) {d : RawMessageType → Bool}
    (hd : ∀ t, d t = true → t.isOutcome = true) : (Ledger.asked d n b).value p.fabric ≤ 1 := by
  by_contra hgt
  obtain ⟨q, o, hasData, hc, hq, hans, -⟩ := awaits_of_asked h hd (n := n) (b := b) (by omega)
  have haw : (p.copies n b).awaits o = some (hasData, false) :=
    Copy.awaits_eq_some.mpr ⟨q, hc, hq⟩
  have hasked := asked h n b
  rw [hc] at hasked
  obtain ⟨hn, hb, -⟩ := Claim.Asked.origin (q := q) hasked _ _ _ hq
  have htokens := tokens_at h hn hb
  have hone := Copy.waits_le_one (c := p.copies n b) (o := o)
  have hval : (Ledger.asked d n b).value p.fabric
      = total (Ledger.asked d n b).flight p.fabric.flights + ∑ _k : NodeId, 0 + 0 + 0 := rfl
  have hval' : (Ledger.answering o).value p.fabric
      = total (Ledger.answering o).flight p.fabric.flights + ∑ _k : NodeId, 0 + 0 + 0 := rfl
  rw [Finset.sum_const_zero] at hval hval'
  -- all of them answer the one request that the copy waits for
  have hle : total (Ledger.asked d n b).flight p.fabric.flights
      ≤ total (Ledger.answering o).flight p.fabric.flights := by
    refine total_le_of_pos fun f hf hpos => ?_
    obtain ⟨ht, hb', hn'⟩ := CtrlMsg.forReq_pos hpos
    have hout := hd _ ht
    have hf' := (Ledger.answering f.packet.origin).flight_le hf
    have hself : (Ledger.answering f.packet.origin).flight f = 1 := (if_pos hout).trans (ind_of rfl)
    have htok := tokens_at h (o := f.packet.origin) hn' hb'
    obtain ⟨_, hw⟩ := Copy.waits_pos (o := f.packet.origin) (c := p.copies n b) (by omega)
    obtain rfl := Copy.awaits_unique haw hw
    rw [hself]
    change f.packet.msg.forReq d n b ≤ 1
    rw [CtrlMsg.forReq, if_pos ht]
    exact ind_le_one _
  omega

/-- A copy has a right to a block or is about to get it, and has no two. -/
theorem right_granting_le (h : (protocol qNum).Reachable p) :
    (p.copies n b).right + p.fabric.granting n b ≤ 1 := by
  have hright := Copy.right_le_one (c := p.copies n b)
  have hgrant : p.fabric.granting n b ≤ 1 := asked_le_one h (by decide)
  by_cases hz : p.fabric.granting n b = 0
  · omega
  · obtain ⟨q, o, hasData, hc, hq, -, t, ht, hk⟩ :=
      awaits_of_asked h (d := (·.isGrant)) (by decide) (Nat.pos_of_ne_zero hz)
    have hclass : ∀ k t : RawMessageType, t.isGrant = true → k.isReplyTo t = true →
        k.isMiss = true := by decide
    have hzero : (p.copies n b).right = 0 := by
      rw [hc]
      change q.await.right q.kind = 0
      rw [hq, Await.right, hclass _ _ ht hk]
      rfl
    omega

/-- So whatever stands for it on the other side is one thing. -/
theorem rights_le (h : (protocol qNum).Reachable p) (n : NodeId) (b : Block) :
    p.fabric.owning n b + p.fabric.revoking n b + p.fabric.releasing n b + p.held (·.revokes) n b
      + (p.copies n b).flagged.toNat ≤ 1 := by
  rw [← rights h n b]
  exact right_granting_le h

theorem writing_le_one (h : (protocol qNum).Reachable p) : p.writing n b ≤ 1 := by
  have hright := Copy.writeRight_le_one (c := p.copies n b)
  have hgrant : p.fabric.writeGranting n b ≤ 1 := asked_le_one h (by decide)
  rw [writing]
  by_cases hz : p.fabric.writeGranting n b = 0
  · omega
  · obtain ⟨q, o, hasData, hc, hq, -, t, ht, hk⟩ :=
      awaits_of_asked h (d := (·.isWriteGrant)) (by decide) (Nat.pos_of_ne_zero hz)
    have hclass : ∀ k t : RawMessageType, t.isWriteGrant = true → k.isReplyTo t = true →
        ∀ d o hd, (Await.waiting o hd false).writeRight k d = 0 := by
      intro k t ht hk d o hd
      have hno : k ≠ .rEvictDirty := by
        rintro rfl
        revert ht hk
        revert t
        decide
      cases k <;> first | rfl | exact (hno rfl).elim
    have hzero : (p.copies n b).writeRight = 0 := by
      rw [hc]
      change q.await.writeRight q.kind q.downgraded = 0
      rw [hq]
      exact hclass _ _ ht hk _ _ _
    omega

/-! ## Steps -/

/-- Action `a` is an agent of node `n` carrying out an invalidation of block `b`. -/
def Revokes (p : Protocol) (a : ProtocolAction) (n : NodeId) (b : Block) : Prop :=
  ∃ i k, a = .apply n i ∧ p.hands n i = some k ∧ k.msg.block = b ∧ k.msg.mtype.revokes

/-- A downgrade becomes pending only by the fabric, and only at the writer. -/
theorem demoting_step (hr : (protocol qNum).Reachable p) (hs : Stepped qNum p a p') :
    p'.demoting n b ≤ p.demoting n b ∨
      (∃ x, a = .internal x) ∧ 1 ≤ p.fabric.writeOwning n b := by
  cases hs with
  | @internal a f ha hi =>
      rcases ((fabricInv hr).blockStep ha hi b).meant_cases (n := n) (d := (·.downgrades))
        (by decide) with hm | ⟨hm, ⟨-, hw⟩ | ⟨⟨t, ht, ht'⟩, -⟩⟩
      · exact .inl (Nat.add_le_add_right hm.le _)
      · exact .inr ⟨⟨_, rfl⟩, hw⟩
      · have hclass : ∀ t : RawMessageType, t.downgrades = true → t.isSharedOrder = false := by
          decide
        rw [hclass t ht] at ht'
        cases ht'
  | turn => exact .inl le_rfl
  | @request m c hm ht hc =>
      have hzero : (Ledger.meant (·.downgrades) n b).flight
          ⟨.net, ⟨(p.origin m).ticket, cacheCtrlToNet m⟩⟩ = 0 :=
        CtrlMsg.forAgent_zero (d := (·.isRequest)) (by decide) hm
      have hord : (Ledger.meant (·.downgrades) n b).value (p.afterRequest m c).fabric
          = (Ledger.meant (·.downgrades) n b).value p.fabric := by
        rw [value_request, hzero, Nat.add_zero]
      exact .inl (Nat.add_le_add_right hord.le _)
  | @receive k τ i m hi' hf' =>
      have hdown := (Ledger.meant (·.downgrades) n b).value_pop hf'
      exact .inl (Nat.add_le_add_right (Nat.le.intro hdown) _)
  | @take k i m' x hn hi' hf' =>
      have hroute := (fabricInv hr).routed _ (List.mem_of_getElem? hf')
      have hdown := (Ledger.meant (·.downgrades) n b).value_pop hf'
      have hheld := held_setHand (p := p) (c := (·.downgrades)) (n := k) (a := i) (some x)
        (fun m' hm' => by cases hm'; exact hroute.2) (fun m' hm' => by rw [hn] at hm'; cases hm') n b
      rw [hn] at hheld
      change _ + 0 = _ + x.msg.forAgent (·.downgrades) n b at hheld
      change _ + x.msg.forAgent (·.downgrades) n b = _ at hdown
      left
      show (Ledger.meant (·.downgrades) n b).value (p.fabric.afterPop _)
          + (p.setHand k i (some x)).held (·.downgrades) n b
        ≤ (Ledger.meant (·.downgrades) n b).value p.fabric + p.held (·.downgrades) n b
      omega
  | @apply k i m c hh hc =>
      have hheld := held_setHand (p := p) (c := (·.downgrades)) (n := k) (a := i) none
        (fun m' hm' => by cases hm')
        (fun m' hm' => by rw [hh] at hm'; cases hm'; exact (hands_order hr hh).2.1) n b
      rw [hh] at hheld
      change _ + m.msg.forAgent (·.downgrades) n b = _ + 0 at hheld
      left
      refine Nat.add_le_add_left (show (p.setHand k i none).held (·.downgrades) n b ≤ _ by omega) _

/-- A copy is flagged by an agent that carries out an invalidation. -/
theorem revokes_of_flagged (hr : (protocol qNum).Reachable p) (hs : Stepped qNum p a p')
    (hf : (p.copies n b).flagged = false) (hf' : (p'.copies n b).flagged = true) :
    p.Revokes a n b := by
  have hset : ∀ {k : NodeId} {d : Block} {c : Copy},
      (c.flagged = true → n = k ∧ b = d → (p.copies k d).flagged = true) →
      ((p.setCopy k d c).copies n b).flagged = true → False := by
    intro k d c hc hset
    rw [setCopy_copies] at hset
    split at hset
    next he =>
      have := hc hset he
      rw [← he.1, ← he.2, hf] at this
      cases this
    next =>
      rw [hf] at hset
      cases hset
  cases hs with
  | internal | take =>
      rw [show (p.copies n b).flagged = true from hf'] at hf
      cases hf
  | turn ht => exact (hset (fun hc _ => by rw [ht.not_flagged] at hc; cases hc) hf').elim
  | request hm ht hc =>
      exact (hset (fun h _ => by rwa [← (Copy.ask_rights hc).2]) hf').elim
  | @receive k τ i m hi' hm' =>
      refine (hset (fun h _ => ?_) hf').elim
      obtain ⟨q, hasData, granted, hc, -, hq, -, -, hrep, -, hs, ho⟩ :=
        receives hr (List.mem_of_getElem? hm')
      rwa [← (Copy.advance_rights hc hq hrep hs ho).2]
  | @apply k i m c hh hc =>
      change ((p.setCopy k m.msg.block c).copies n b).flagged = true at hf'
      rw [setCopy_copies] at hf'
      split at hf'
      next he =>
        obtain ⟨rfl, rfl⟩ := he
        refine ⟨i, m, rfl, hh, rfl, ?_⟩
        cases hold : p.copies n m.msg.block with
        | absent =>
            rw [hold] at hc
            cases hc
            cases hf'
        | resting st w =>
            rw [hold] at hc
            obtain ⟨st', rfl, -⟩ := Copy.obey_resting hc
            cases hf'
        | claimed q =>
            rw [hold] at hc
            obtain ⟨hq, ⟨ht, -⟩ | ⟨-, -, -, -, rfl⟩⟩ := Copy.obey_claimed hc
            · exact ht
            · rw [show q.flag = true from hf'] at hq
              cases hq
      next =>
        rw [hf] at hf'
        cases hf'

/-! ## Runs in order -/

/-- The runs in which no agent carries out an invalidation while a downgrade of the block is
pending at its node. -/
def InOrder (p : Protocol) (a : ProtocolAction) : Prop :=
  ∀ n b, p.Revokes a n b → p.demoting n b = 0

/-- In these runs no downgrade is pending for a copy that is flagged, and both sides agree about
the right to write of one that is not. -/
structure Ordered (p : Protocol) (n : NodeId) (b : Block) : Prop where
  flagged : (p.copies n b).flagged = true → p.demoting n b = 0
  writes : (p.copies n b).flagged = false → p.writing n b = p.writeHeld n b

theorem ordered (h : (protocol qNum).ReachableWhen InOrder p) (n : NodeId) (b : Block) :
    p.Ordered n b := by
  revert n b
  refine invariantWhen (P := fun p => ∀ n b, p.Ordered n b) (fun p hp n b => ?_)
    (fun p a p' hr hr' hok ih hs n b => ?_) h
  · obtain ⟨hw, hh⟩ := writes_init hp n b
    refine ⟨fun hf => ?_, fun _ => hw.trans hh.symm⟩
    rw [hp.copies] at hf
    cases hf
  · have hold := ih n b
    refine ⟨fun hf' => ?_, fun hf' => ?_⟩
    · cases hf : (p.copies n b).flagged
      · have hrev := revokes_of_flagged hr hs hf hf'
        have hzero := hok n b hrev
        rcases demoting_step (n := n) (b := b) hr hs with hstep | ⟨⟨x, rfl⟩, -⟩
        · omega
        · obtain ⟨i, k, he, -⟩ := hrev
          cases he
      · have hzero := hold.flagged hf
        rcases demoting_step (n := n) (b := b) hr hs with hstep | ⟨-, hw⟩
        · omega
        · -- the directory does not count a node whose copy is flagged
          have hright := rights_le hr n b
          have hstand := writeStanding_le p n b
          rw [hf] at hright
          change _ + 1 ≤ 1 at hright
          rw [writeStanding] at hstand
          omega
    · have hsum := writeHeld_eq p n b
      have hsum' := writeHeld_eq p' n b
      cases writeStep hr hs hf' with
      | moved hf h hd =>
          have := hold.writes hf
          omega
      | taken hf hle h hh hd =>
          have := hold.writes hf
          omega
      | cleared hf hd h hright hg =>
          have hbal := rights hr' n b
          have hle := writeStanding_le p' n b
          have hzero := hold.flagged hf
          rw [hright, hg, hf'] at hbal
          change 0 + 0 = _ + 0 at hbal
          omega

/-! ## What an order meets -/

/-- An invalidation that is pending meets a copy that has a right, or is about to get one. -/
theorem right_of_revoking (h : (protocol qNum).Reachable p)
    (hpos : 1 ≤ p.fabric.revoking n b + p.held (·.revokes) n b) :
    (p.copies n b).flagged = false ∧ p.fabric.owning n b = 0 ∧
      (p.copies n b).right + p.fabric.granting n b = 1 := by
  have hle := rights_le h n b
  have hr := rights h n b
  have hflag : (p.copies n b).flagged = false := by
    cases hf : (p.copies n b).flagged
    · rfl
    · rw [hf] at hle
      change _ + 1 ≤ 1 at hle
      omega
  rw [hflag] at hr hle
  change _ = _ + 0 at hr
  exact ⟨hflag, by omega, by omega⟩

/-- What an agent has in hand is held. -/
theorem one_le_held (h : (protocol qNum).Reachable p) {i : AgentId} {k : Packet}
    {d : RawMessageType → Bool} (hk : p.hands n i = some k) (hd : d k.msg.mtype) :
    1 ≤ p.held d n k.msg.block := by
  have hle := le_sum (fun a => (p.hands n a).elim 0 (·.msg.forAgent d n k.msg.block)) i
  rw [hk] at hle
  refine le_trans ?_ hle
  show 1 ≤ k.msg.forAgent d n k.msg.block
  rw [CtrlMsg.forAgent_self rfl (hands_order h hk).2.1, hd]
  exact le_rfl

/-- An agent that has an order in hand can carry it out, or the order is a downgrade for a write
that has been granted and is not over, or a downgrade is to be carried out first. -/
inductive Meets (p : Protocol) (n : NodeId) (m : CtrlMsg) : Copy → Prop
  | obeys {c d : Copy} (h : c.obey m.mtype = some d) : Meets p n m c
  | early {q : Claim} (ht : m.mtype.downgrades) (hev : q.kind.isEvict = false)
      (hk : q.kind ≠ .rReadMiss) (h : 1 ≤ q.writeRight + p.fabric.writeGranting n m.block) :
      Meets p n m (.claimed q)
  | late {u : Option ThreadId} (ht : m.mtype.isSharedOrder) (hd : 1 ≤ p.demoting n m.block) :
      Meets p n m (.resting .modified u)

/-- In a run in order it meets a copy, which is not flagged. -/
theorem meets (h : (protocol qNum).ReachableWhen InOrder p) {i : AgentId} {k : Packet}
    (hk : p.hands n i = some k) : p.copies n k.msg.block ≠ .absent ∧
      (p.copies n k.msg.block).flagged = false ∧ p.Meets n k.msg (p.copies n k.msg.block) := by
  have hr := h.reachable
  have hord := ordered h n k.msg.block
  have hheld := writeHeld_eq p n k.msg.block
  have hclass : ∀ t : RawMessageType, t.isOrder = true → t.downgrades = true ∨
      t.revokes = true ∧ (t.isSharedOrder = true ∨ t.revokesDirty = true) := by decide
  rcases hclass _ (hands_order hr hk).1 with ht | ⟨ht, hkind⟩
  · have hone := one_le_held hr (d := (·.downgrades)) hk ht
    have hflag : (p.copies n k.msg.block).flagged = false := by
      by_contra hf
      have hzero := hord.flagged (Bool.eq_true_of_not_eq_false hf)
      rw [demoting] at hzero
      omega
    have hwrites := hord.writes hflag
    rw [hheld, demoting, writing] at hwrites
    cases hc : p.copies n k.msg.block with
    | absent =>
        rw [hc, writeGranting_zero hr (.inl fun o => by rw [hc]; rfl)] at hwrites
        change 0 + 0 = _ at hwrites
        omega
    | resting st u =>
        rw [hc, writeGranting_zero hr (.inl fun o => by rw [hc]; rfl)] at hwrites
        obtain rfl : st = .modified := by
          cases st with
          | modified => rfl
          | invalid | shared =>
              change 0 + 0 = _ at hwrites
              omega
        exact ⟨by rintro ⟨⟩, rfl, .obeys (if_pos ht)⟩
    | claimed q =>
        rw [hc] at hflag hwrites
        have hf : q.flag = false := hflag
        refine ⟨by rintro ⟨⟩, hflag, ?_⟩
        have hright : 1 ≤ q.writeRight + p.fabric.writeGranting n k.msg.block := by
          change q.writeRight + _ = _ at hwrites
          omega
        cases hev : q.kind.isEvict
        · refine .early ht hev ?_ hright
          intro hread
          rw [show q.writeRight = 0 by rw [Claim.writeRight, hread]; rfl, Nat.zero_add] at hright
          obtain ⟨q', o, hasData, hc', -, -, t, htg, hrep⟩ :=
            awaits_of_asked hr (d := (·.isWriteGrant)) (n := n) (b := k.msg.block) (by decide)
              hright
          rw [hc] at hc'
          cases hc'
          have hno : ∀ t : RawMessageType, t.isWriteGrant = true →
              RawMessageType.rReadMiss.isReplyTo t = false := by decide
          rw [hread, hno _ htg] at hrep
          cases hrep
        · rw [writeGranting_zero hr
            (.inr fun q' hq' => by rw [hc] at hq'; cases hq'; exact hev)] at hright
          refine .obeys (d := .claimed { q with downgraded := true }) ?_
          have hrev : ¬ k.msg.mtype.revokes = true := by
            intro hrev
            have hno : ∀ t : RawMessageType, t.downgrades = true → t.revokes = false := by decide
            rw [hno _ ht] at hrev
            cases hrev
          rw [Copy.obey, if_neg (by rw [hf]; exact Bool.false_ne_true), if_neg hrev, ht, hev,
            q.downgraded_of_writeRight hev hright]
          rfl
  · have hone := one_le_held hr (d := (·.revokes)) hk ht
    obtain ⟨hflag, hown, hright⟩ := right_of_revoking hr (n := n) (b := k.msg.block) (by omega)
    have hwrites := hord.writes hflag
    rw [hheld, writing] at hwrites
    cases hc : p.copies n k.msg.block with
    | absent =>
        rw [granting_zero hr fun o => by rw [hc]; rfl, hc] at hright
        cases hright
    | resting st u =>
        rw [granting_zero hr fun o => by rw [hc]; rfl, hc] at hright
        refine ⟨by rintro ⟨⟩, rfl, ?_⟩
        rw [hc, writeGranting_zero hr (.inl fun o => by rw [hc]; rfl)] at hwrites
        cases st with
        | invalid => cases hright
        | shared =>
            rcases hkind with hs | hd
            · exact .obeys (if_pos hs)
            · have hdirty := one_le_held hr (d := (·.revokesDirty)) hk hd
              change 0 + 0 = _ at hwrites
              rw [writeStanding] at hwrites
              omega
        | modified =>
            rcases hkind with hs | hd
            · have hshared := one_le_held hr (d := (·.isSharedOrder)) hk hs
              have hstand := writeStanding_add_le p n k.msg.block
              have hle := rights_le hr n k.msg.block
              refine .late hs ?_
              change 1 + 0 = _ at hwrites
              omega
            · have hno : ∀ t : RawMessageType, t.revokesDirty = true → t.downgrades = false := by
                decide
              refine .obeys (d := .resting .invalid u) ?_
              rw [Copy.obey, hno _ hd, if_neg (by rintro ⟨⟩), if_pos hd]
    | claimed q =>
        rw [hc] at hflag
        have hf : q.flag = false := hflag
        refine ⟨by rintro ⟨⟩, hflag, .obeys (d := .claimed { q with flag := true }) ?_⟩
        rw [Copy.obey, if_neg (by rw [hf]; exact Bool.false_ne_true), if_pos ht]

end Protocol

end Ting
