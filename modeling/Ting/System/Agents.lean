/-
# `Ting.System.Agents` — the loops of the agents

An agent that has found the line of its order tries until the line is in a state in which it can
carry the order out.  An invalidation never waits for its line to become one: the line has the
right that is to be taken away (`invalidation_meets_line`).

In runs in which no invalidation overtakes a downgrade at its node, and no thread moves a line
aside while it waits for an eviction, an agent that cannot go on waits for a thread to end a write
that has been granted, or for a downgrade that comes first (`agents_proceed`).
-/
import Ting.Protocol.InOrder
import Ting.System.Asserts
import Ting.System.AtRest
import Ting.System.Spins

namespace Ting

/-- What may be done to a copy may be done to its line. -/
theorem Copy.At.obeys {sh : Bool} {l : LineInfo} {t : RawMessageType} {c c' : Copy}
    (hat : c.At sh l) (h : c.obey t = some c') : ∃ l', l.obey t = some l' := by
  cases c with
  | absent => exact hat.elim
  | resting st u =>
      obtain ⟨hf, hst, -⟩ := hat
      have hcas : ∀ st', l.casFlagAndStatus false st.status false st'
          = some (l.setFlagAndStatus false st') := fun _ => if_pos ⟨hf, hst⟩
      cases st with
      | invalid => cases h
      | shared =>
          refine ⟨_, (?_ : _ = some (l.setFlagAndStatus false .invalid))⟩
          unfold LineInfo.obey
          rw [hst]
          cases t <;> first | exact hcas _ | cases h
      | modified =>
          cases t <;> first
            | exact ⟨_, by unfold LineInfo.obey; rw [hst]; exact hcas _⟩
            | cases h
  | claimed q =>
      obtain ⟨hf, hst, -⟩ := hat
      cases hflag : q.flag
      · rw [hflag] at hf
        rw [Copy.obey, hflag, if_neg Bool.false_ne_true] at h
        split at h
        next ht =>
          refine ⟨_, LineInfo.obey_transient ht ?_ hf⟩
          rw [hst, Claim.status]
          split
          next => split <;> rfl
          next => rcases q.kind.toStatus_eq with hk | hk <;> rw [hk] <;> rfl
        next =>
          split at h
          next hd =>
            simp only [Bool.and_eq_true, Bool.not_eq_true'] at hd
            rw [Claim.status, hd.1.2, hd.2] at hst
            have hcas : l.casFlagAndStatus false .toPreserved false .toShared
                = some (l.setFlagAndStatus false .toShared) := if_pos ⟨hf, hst⟩
            have ht := hd.1.1
            cases t <;> first
              | exact ⟨_, by unfold LineInfo.obey; rw [hst]; exact hcas⟩
              | cases ht
          next => cases h
      · rw [Copy.obey, hflag] at h
        cases h

/-- The right to write of a claim that is not an eviction comes with the answer. -/
theorem Await.writeRight_pos {k : RawMessageType} {d : Bool} {w : Await} (hev : k.isEvict = false)
    (h : 1 ≤ w.writeRight k d) :
    (∃ o hasData, w = .waiting o hasData true) ∨ ∃ t, w = .answered t ∧ t.isWriteGrant := by
  have hmiss : ∀ k, (k = .rWriteMiss ∨ k = .rWriteShared) → 1 ≤ w.writeRight k d →
      (∃ o hasData, w = .waiting o hasData true) ∨ ∃ t, w = .answered t ∧ t.isWriteGrant := by
    rintro k (rfl | rfl) h
    all_goals
      cases w with
      | unsent => cases h
      | waiting o hasData granted =>
          cases granted
          · cases h
          · exact .inl ⟨o, hasData, rfl⟩
      | answered t =>
          refine .inr ⟨t, rfl, ?_⟩
          by_contra ht
          rw [writeRight, Bool.eq_false_iff.mpr ht] at h
          cases h
  cases k with
  | rWriteMiss => exact hmiss _ (.inl rfl) h
  | rWriteShared => exact hmiss _ (.inr rfl) h
  | rEvictDirty => cases hev
  | _ => cases h

/-- So the answer has come, or it is on its way. -/
theorem Protocol.granted_of_writeRight {qNum : ℕ} {p : Protocol} {n : NodeId} {b : Block} {q : Claim}
    (h : (protocol qNum).Reachable p) (hc : p.copies n b = .claimed q) (hev : q.kind.isEvict = false)
    (hw : 1 ≤ q.writeRight + p.fabric.writeGranting n b) :
    (∃ o hasData granted, q.await = .waiting o hasData granted ∧
      (granted ∨ 1 ≤ p.fabric.writeGranting n b)) ∨
      ∃ t, q.await = .answered t ∧ t.isWriteGrant := by
  by_cases hzero : p.fabric.writeGranting n b = 0
  · rw [hzero] at hw
    rcases Await.writeRight_pos hev hw with ⟨o, hasData, hq⟩ | hq
    · exact .inl ⟨o, hasData, true, hq, .inl rfl⟩
    · exact .inr hq
  · obtain ⟨q', o, hasData, hc', hq, -⟩ :=
      awaits_of_asked h (d := (·.isWriteGrant)) (by decide) (Nat.pos_of_ne_zero hzero)
    cases hc.symm.trans hc'
    exact .inl ⟨o, hasData, false, hq, .inr (Nat.pos_of_ne_zero hzero)⟩

namespace System

variable {qNum apptNum : ℕ} {ds : NodeId → List Addr} {s s' : System} {p : Protocol}
  {a : SystemAction} {n : NodeId} {b : Block}

/-- An invalidation that is pending finds a line for its block, which permits reading or waits for
an answer and whose flag is not set; and the directory does not count the node any more. -/
theorem invalidation_meets_line (h : (system qNum apptNum ds).Reachable s)
    (hp : s.Pending (·.revokes) n b) : ¬ s.fabric.Counts n b ∧ ∃ r, (s.hosts n).address r = b ∧
      ((s.hosts n).lines r).flag = false ∧
        (((s.hosts n).status r).permits false ∨ ((s.hosts n).status r).isTransient) := by
  obtain ⟨p, hpr, hR⟩ := refines h
  rw [hR.pending hpr] at hp
  have hrev := revoking_eq p.fabric n b
  obtain ⟨hflag, hown, hright⟩ := Protocol.right_of_revoking hpr (n := n) (b := b) (by omega)
  have hle := Protocol.rights_le hpr n b
  have hcounts : ¬ s.fabric.Counts n b := by
    rw [Fabric.Counts, ← hR.fabric]
    omega
  -- the right that is to be taken away is that of a copy
  have hcopy : p.copies n b ≠ .absent := by
    intro hc
    rw [Protocol.granting_zero hpr fun o => by rw [hc]; rfl, hc] at hright
    cases hright
  obtain ⟨r, hne, rfl⟩ := (hR.copies n).found b hcopy
  have hat := (hR.copies n).line r hne
  refine ⟨hcounts, r, rfl, ?_⟩
  cases hc : p.copies n ((s.hosts n).address r) with
  | absent => exact (hcopy hc).elim
  | resting st u =>
      rw [Protocol.granting_zero hpr fun o => by rw [hc]; rfl, hc] at hright
      rw [hc] at hat
      refine ⟨hat.1, .inl ?_⟩
      rw [Host.status, hat.2.1]
      cases st <;> first | rfl | cases hright
  | claimed q =>
      have hasked := Protocol.asked hpr n ((s.hosts n).address r)
      rw [hc] at hat hflag hasked
      refine ⟨hat.1.trans hflag, .inr ?_⟩
      rw [Host.status, hat.2.1]
      exact Claim.status_isTransient hasked.isRequest

/-- The runs in which no agent that has found its line carries out an invalidation while a
downgrade of the block is pending at its node. -/
def InOrder (s : System) (a : SystemAction) : Prop :=
  ∀ n i m r, a = .host n (.agent i) → (s.hosts n).agents i = .loop m r → m.mtype.revokes →
    ¬ s.Pending (·.downgrades) n m.block

theorem refines_inOrder (h : (system qNum apptNum ds).ReachableWhen InOrder s) :
    ∃ p, (protocol qNum).ReachableWhen Protocol.InOrder p ∧ s.Refines p := by
  refine refinesWhen (fun p a ha n b hd => ?_) (fun s p n i hR hp hok hat m b hd => ?_) h
  · obtain ⟨i, k, rfl, -⟩ := hd
    cases ha
  · obtain ⟨j, k, he, hk, rfl, hrev⟩ := hd
    cases he
    obtain ⟨k', hk', hat⟩ := hat
    cases hk.symm.trans hk'
    rcases hat with ⟨r, hpc⟩ | habs
    · have hpend := hok n i k.msg r rfl hpc hrev
      rw [hR.pending hp] at hpend
      rw [Protocol.demoting, Fabric.downgrading]
      omega
    · have hone := Protocol.one_le_held hp (d := (·.revokes)) hk hrev
      obtain ⟨-, -, hright⟩ := Protocol.right_of_revoking hp (n := n) (b := k.msg.block) (by omega)
      rw [Protocol.granting_zero hp fun o => by rw [habs]; rfl, habs] at hright
      cases hright

/-- A thread of node `n` has a request for line `r` outstanding that gives it the right to write:
it has been granted, or the grant is on its way. -/
def Granted (s : System) (n : NodeId) (r : LineRef) : Prop :=
  ∃ τ kind, (∃ hasData granted, ((s.hosts n).threads τ).pc = .await r kind hasData granted ∧
      (granted ∨ 1 ≤ s.fabric.writeGranting n ((s.hosts n).address r))) ∨
    ((s.hosts n).threads τ).pc = .finish r kind true

/-- A claim on a line that is about to be written is that of a thread that has been granted it. -/
theorem Refines.granted (hR : s.Refines p) (hp : (protocol qNum).Reachable p)
    (h : (system qNum apptNum ds).Reachable s) (hsound : Sound (s.hosts n)) {r : LineRef} {q : Claim}
    (hne : (s.hosts n).status r ≠ .preserved)
    (hc : p.copies n ((s.hosts n).address r) = .claimed q) (hev : q.kind.isEvict = false)
    (hw : 1 ≤ q.writeRight + p.fabric.writeGranting n ((s.hosts n).address r)) : s.Granted n r := by
  have hreach := hosts_reachable h n
  have hasked := Protocol.asked hp n ((s.hosts n).address r)
  rw [hc] at hasked
  obtain ⟨r', ha, hne', hown⟩ := (hR.copies n).attends hreach hsound.attended hsound.threads hc
    hasked.isRequest
  obtain rfl := (Host.addressed hreach).unique (Host.tagged hreach) hne' hne ha
  have hat := (hR.copies n).line r' hne
  rw [hc] at hat
  rcases hown with ⟨kind, hjob⟩ | ⟨x, hx⟩
  · obtain ⟨haddr, -, q', hq', -, -, hasks⟩ := ((hR.copies n).thread q.thread).job r' kind hjob
    rw [← haddr, hc] at hq'
    cases hq'
    -- what has come for the claim tells where the thread is
    have hgot := Protocol.granted_of_writeRight hp hc hev hw
    rw [hR.fabric] at hgot
    have hunsent : q.await ≠ .unsent := by
      intro hq
      rw [hq] at hgot
      rcases hgot with ⟨_, _, _, he, -⟩ | ⟨_, he, -⟩ <;> cases he
    have hanswered : ∀ t, q.await = .answered t → t.isWriteGrant := by
      intro t hq
      rw [hq] at hgot
      rcases hgot with ⟨_, _, _, he, -⟩ | ⟨_, he, ht⟩
      · cases he
      · cases he
        exact ht
    cases hpc : ((s.hosts n).threads q.thread).pc with
    | await x kind' hasData granted =>
        rw [hpc] at hjob hasks
        cases hjob
        obtain ⟨o, ho⟩ := hasks
        rw [ho] at hgot
        rcases hgot with ⟨_, _, _, he, hg⟩ | ⟨_, he, -⟩
        · cases he
          exact ⟨_, _, .inl ⟨_, _, hpc, hg⟩⟩
        · cases he
    | finish x kind' succ =>
        rw [hpc] at hjob hasks
        cases hjob
        obtain ⟨t, ht, hfail, -⟩ := hasks
        have hclass : ∀ t : RawMessageType, t.isWriteGrant = true → t.isFail = false := by decide
        rw [hclass _ (hanswered t ht)] at hfail
        cases succ
        · cases hfail
        · exact ⟨_, _, .inr hpc⟩
    | spin =>
        rw [hpc] at hasks
        cases hanswered _ hasks
    | request =>
        rw [hpc] at hasks
        exact (hunsent hasks).elim
    | unlock x =>
        rw [hpc] at hjob hasks
        cases x with
        | request => exact (hunsent hasks).elim
        | _ => cases hjob
    | _ =>
        rw [hpc] at hjob
        cases hjob
  · have := ((Host.owned hreach).fits q.thread).cur r' x hx
    rw [hat.2.2, hev] at this
    cases this.1

/-- In these runs an agent that has found the line of its order can carry it out, or waits for a
thread to end a write that has been granted, or for a downgrade that comes first. -/
theorem agents_proceed (h : (system qNum apptNum ds).ReachableWhen
      (fun s a => s.InOrder a ∧ s.OneAtATime a) s) {i : AgentId} {m : CtrlMsg} {r : LineRef}
    (hpc : (s.hosts n).agents i = .loop m r) :
    (s.hosts n).address r = m.block ∧ ((s.hosts n).lines r).flag = false ∧
      ((∃ s', s.step qNum (.host n (.agent i)) = some s') ∨
        m.mtype.downgrades ∧ (s.hosts n).status r = .toModified ∧ s.Granted n r ∨
        m.mtype.isSharedOrder ∧ (s.hosts n).status r = .modified ∧
          s.Pending (·.downgrades) n m.block) := by
  obtain ⟨p, hp, hR⟩ := refines_inOrder (h.mono fun _ _ hok => hok.1)
  have hsound := sound (h.mono fun _ _ hok => hok.2) n
  have hreach := hosts_reachable h n
  have hhand := hR.hands n i
  rw [hpc] at hhand
  obtain ⟨k, hk, rfl⟩ := Option.map_eq_some_iff.mp hhand
  obtain ⟨hord, -, htag⟩ := Protocol.hands_order hp.reachable hk
  obtain ⟨habs, hflag, hmeets⟩ := Protocol.meets hp hk
  obtain ⟨x, hne, hx⟩ := (hR.copies n).found _ habs
  obtain rfl := Host.loop_eq hreach hpc hne ((Host.addressed hreach x hne).trans
    ((congrArg Block.getTag hx).trans (of_decide_eq_true htag).symm))
  have hat := (hR.copies n).line r hne
  rw [hx] at hat
  refine ⟨hx, ?_, ?_⟩
  · cases hc : p.copies n k.msg.block with
    | absent => exact (habs hc).elim
    | resting st u =>
        rw [hc] at hat
        exact hat.1
    | claimed q =>
        rw [hc] at hat hflag
        exact hat.1.trans hflag
  · generalize hc : p.copies n k.msg.block = c at hat hmeets
    cases hmeets with
    | obeys ho =>
        obtain ⟨l, hl⟩ := hat.obeys ho
        refine .inl ⟨s.setHost n (((s.hosts n).setLine r l).setAgent i (.unlock k.msg)), ?_⟩
        show ((s.hosts n).agentStep i).map (s.setHost n) = _
        rw [Host.agentStep, hpc]
        dsimp only
        rw [if_pos hord, hl]
        rfl
    | @early q ht hev hk hw =>
        refine .inr (.inl ⟨ht, ?_, ?_⟩)
        · rw [Host.status, hat.2.1, Claim.status, if_neg (by rw [hev]; exact Bool.false_ne_true)]
          cases hkind : q.kind <;> first | rfl | exact (hk hkind).elim
        · exact hR.granted hp.reachable h.reachable hsound hne (hx ▸ hc) hev (hx ▸ hw)
    | late ht hd =>
        refine .inr (.inr ⟨ht, hat.2.1, ?_⟩)
        rw [hR.pending hp.reachable]
        rw [Protocol.demoting, Fabric.downgrading] at hd
        omega

/-! ## Runs -/

open HostAction (ofThread ofAgent)

open SystemAction (ofHost ofFabric)

/-- Node 2 has been refused, and has still to carry out the invalidation of its line. -/
theorem invalidation_meets_line_upgrade : ∃ s : System, s.Pending (·.revokes) 2 ⟨0, 5⟩ ∧
    ¬ s.fabric.Counts 2 ⟨0, 5⟩ := by
  obtain ⟨s, hr, hv⟩ := TransitionSystem.exists_reachable (T := system 8 1 fun _ => [1])
    (f := fun s => (((s.hosts 2).threads 0).spins, (s.hosts 2).address ⟨false, 63045, 7⟩,
      ((s.hosts 2).lines ⟨false, 63045, 7⟩).flag))
    (v := (some ⟨false, 63045, 7⟩, ⟨0, 5⟩, false)) refusedUpgrade
    (start_init 1 fun _ => [1]) (by decide +kernel)
  obtain ⟨hs, hv⟩ := Prod.mk.inj hv
  obtain ⟨ha, hf⟩ := Prod.mk.inj hv
  have hpend := (refused_of_spins hr hs).2.resolve_left (by rw [hf]; exact Bool.false_ne_true)
  rw [ha] at hpend
  exact ⟨s, hpend, (invalidation_meets_line hr hpend).1⟩

/-- No agent is in the loop of an invalidation, and no thread begins an eviction while it waits for
one. -/
def gentle (s : System) (a : SystemAction) : Bool :=
  s.noEviction a && match a with
  | .host n (.agent i) =>
      match (s.hosts n).agents i with
      | .loop m _ => !m.mtype.revokes
      | _ => true
  | _ => true

theorem inOrder_of_gentle (s : System) (a : SystemAction) (hc : s.gentle a) :
    s.InOrder a ∧ s.OneAtATime a := by
  obtain ⟨hev, hag⟩ := Bool.and_eq_true_iff.mp hc
  refine ⟨?_, oneAtATime_of_noEviction s a hev⟩
  rintro n i m r rfl hpc hrev
  simp only [hpc, hrev] at hag
  cases hag

/-- The line of the downgrade that agent `i` of node `n` is about to carry out. -/
def demotes (s : System) (n : NodeId) (i : AgentId) : Option LineRef :=
  match (s.hosts n).agents i with
  | .loop m r => if m.mtype.downgrades then some r else none
  | _ => none

theorem demotes_eq {i : AgentId} {r : LineRef} (h : s.demotes n i = some r) :
    ∃ m, (s.hosts n).agents i = .loop m r ∧ m.mtype.downgrades := by
  unfold demotes at h
  split at h
  next m x hpc =>
    split at h
    next ht =>
      cases h
      exact ⟨m, hpc, ht⟩
    next => cases h
  next => cases h

/-- The grant has to arrive before the downgrade is carried out. -/
theorem agents_proceed_early : ∃ s : System, (s.hosts 1).status ⟨false, 63045, 7⟩ = .toModified ∧
    s.Granted 1 ⟨false, 63045, 7⟩ := by
  obtain ⟨s, hr, hv⟩ := TransitionSystem.exists_reachableWhen (T := system 8 1 fun _ => [1])
    (f := fun s => (s.demotes 1 0, (s.step 8 (.host 1 (.agent 0))).isSome))
    (v := (some ⟨false, 63045, 7⟩, false)) earlyDowngrade inOrder_of_gentle
    (start_init 1 fun _ => [1]) (by decide +kernel)
  obtain ⟨hm, hno⟩ := Prod.mk.inj hv
  obtain ⟨m, hpc, ht⟩ := demotes_eq hm
  rcases (agents_proceed hr hpc).2.2 with ⟨s', hs⟩ | ⟨-, hst, hg⟩ | ⟨hs, -⟩
  · rw [hs] at hno
    cases hno
  · exact ⟨s, hst, hg⟩
  · have hclass : ∀ t : RawMessageType, t.downgrades = true → t.isSharedOrder = false := by decide
    rw [hclass _ ht] at hs
    cases hs

/-- If an invalidation overtakes it, the agent tries in vain: no thread has a request for the line
outstanding. -/
theorem downgrade_overtaken : ∃ s : System, (system 8 1 fun _ => [1]).Reachable s ∧
    (∃ m, (s.hosts 1).agents 0 = .loop m ⟨false, 63045, 7⟩ ∧ m.mtype.downgrades) ∧
      (s.hosts 1).status ⟨false, 63045, 7⟩ = .invalid ∧ s.step 8 (.host 1 (.agent 0)) = none := by
  obtain ⟨s, hr, hv⟩ := TransitionSystem.exists_reachable (T := system 8 1 fun _ => [1])
    (f := fun s => (s.demotes 1 0, (s.hosts 1).status ⟨false, 63045, 7⟩,
      (s.step 8 (.host 1 (.agent 0))).isNone))
    (v := (some ⟨false, 63045, 7⟩, .invalid, true)) overtakenDowngrade
    (start_init 1 fun _ => [1]) (by decide +kernel)
  obtain ⟨hm, hv⟩ := Prod.mk.inj hv
  obtain ⟨hst, hno⟩ := Prod.mk.inj hv
  exact ⟨s, hr, demotes_eq hm, hst, Option.isNone_iff_eq_none.mp hno⟩

end System

end Ting
