/-
# `Ting.System.Spins` — the loops that wait for the flag

A thread that is told `BITMAP_CHECK_FAIL` spins until the flag of its line is set.  The flag is
set already, or an invalidation of the line is pending at the node: the directory does not count
the node among the owners, but the line still stands for a right to the block.  And the agent
that comes to carry the invalidation out is enabled and sets the flag.
-/
import Ting.System.Orders
import Ting.Protocol.Refusals

namespace Ting

/-- The line whose flag a thread waits for. -/
def Thread.spins (t : Thread) : Option LineRef :=
  match t.pc with
  | .spin r _ => some r
  | .evictSpin => some t.cur
  | _ => none

namespace Host

variable {h : Host} {c : Block → Copy} {τ : ThreadId} {r : LineRef}

/-- A thread spins for the flag of a copy that was refused with `BITMAP_CHECK_FAIL`. -/
theorem Tracks.spins {apptNum : ℕ} {ds : List Addr} (hr : (host apptNum ds).Reachable h)
    (hk : h.Tracks c) (hs : (h.threads τ).spins = some r) :
    h.status r ≠ .preserved ∧ ∃ q, c (h.address r) = .claimed q ∧
      q.await = .answered .dir2AppBitmapCheckFail := by
  have hf := hk.thread τ
  have hfit := (owned hr).fits τ
  unfold Thread.spins at hs
  cases hpc : (h.threads τ).pc with
  | spin r' kind =>
      rw [hpc] at hs
      cases hs
      obtain ⟨haddr, -, q, hq, -, -, hask⟩ := hf.job r kind (by rw [hpc]; rfl)
      rw [hpc] at hask
      refine ⟨hfit.not_preserved (.inl ⟨kind.toStatus, ?_⟩), q, haddr ▸ hq, hask⟩
      rw [Thread.stake, Pc.claim_eq, hpc]
      rfl
  | evictSpin =>
      rw [hpc] at hs
      cases hs
      obtain ⟨-, q, hq, -, -, hw⟩ := hf.cur.spinning hpc
      refine ⟨hfit.not_preserved (.inr (.inr ⟨.waiting, ?_⟩)), q, hq, hw⟩
      rw [Thread.stake, hpc]
      rfl
  | _ =>
      rw [hpc] at hs
      cases hs

/-- The line that an agent has found is that of its tag. -/
theorem loop_eq {apptNum : ℕ} {ds : List Addr} (hr : (host apptNum ds).Reachable h) {a : AgentId}
    {m : CtrlMsg} {r r' : LineRef} (hpc : h.agents a = .loop m r') (hne : h.status r ≠ .preserved)
    (htag : (h.lines r).tag = m.clineTag) : r' = r := by
  by_contra hrr
  have hset : r.set = calLineSet m.clineTag := by rw [(tagged hr).home r hne, htag]
  have := sought hr a r (by rw [hpc]; exact ⟨hset, fun he => hrr he.symm⟩)
  rw [hpc] at this
  exact absurd (holds_iff.mpr ⟨hne, htag⟩) (by rw [show (h.lines r).holds m.clineTag = false from this]; exact Bool.false_ne_true)

end Host

/-- An agent sets the flag of a line in transition in one round. -/
theorem LineInfo.obey_transient {l : LineInfo} {t : RawMessageType} (ht : t.revokes)
    (hs : l.status.isTransient) (hf : l.flag = false) :
    l.obey t = some (l.setFlagAndStatus true l.status) := by
  have hcas : l.casFlagAndStatus false l.status true l.status
      = some (l.setFlagAndStatus true l.status) := if_pos ⟨hf, rfl⟩
  unfold obey
  cases t with
  | dir2AgentWriteSharedNotonly | dir2AgentWriteMissShared | dir2AgentWriteMissDirty =>
      dsimp only
      cases hst : l.status <;> rw [hst] at hs hcas <;> first | exact hcas | cases hs
  | _ => cases ht

namespace System

variable {qNum apptNum : ℕ} {ds : NodeId → List Addr} {s s' : System} {n : NodeId} {τ : ThreadId}

/-- The flag of a refused copy is set, or an invalidation is pending. -/
theorem Refines.refused {p : Protocol} {r : LineRef} {q : Claim} (hR : s.Refines p)
    (hp : (protocol qNum).Reachable p) (hne : (s.hosts n).status r ≠ .preserved)
    (hq : p.copies n ((s.hosts n).address r) = .claimed q)
    (hw : q.await = .answered .dir2AppBitmapCheckFail) :
    ((s.hosts n).status r).isTransient ∧
      (((s.hosts n).lines r).flag ∨ s.Pending (·.revokes) n ((s.hosts n).address r)) := by
  have hat := (hR.copies n).line r hne
  rw [hq] at hat
  refine ⟨?_, ?_⟩
  · have hasked := Protocol.asked hp n ((s.hosts n).address r)
    rw [hq] at hasked
    show (((s.hosts n).lines r).status).isTransient
    rw [hat.2.1]
    exact Claim.status_isTransient hasked.isRequest
  · rcases Protocol.revoked_of_refused hp hq hw with hf | hpend
    · exact .inl (hat.1.trans hf)
    · exact .inr ((hR.pending hp).mpr hpend)

/-- A thread that waits for a flag: it is set, or an invalidation of the line is pending. -/
theorem refused_of_spins (h : (system qNum apptNum ds).Reachable s) {r : LineRef}
    (hs : ((s.hosts n).threads τ).spins = some r) : ((s.hosts n).status r).isTransient ∧
      (((s.hosts n).lines r).flag ∨ s.Pending (·.revokes) n ((s.hosts n).address r)) := by
  obtain ⟨p, hp, hR⟩ := refines h
  obtain ⟨hne, q, hq, hw⟩ := (hR.copies n).spins (hosts_reachable h n) hs
  exact hR.refused hp hne hq hw

open HostAction (ofThread)

open SystemAction (ofHost ofFabric)

/-- Nodes 1 and 2 read a block and are about to write it.  Node 1 is first, and node 3 reads the
block from it; then node 2 asks. -/
def refusedUpgrade : List SystemAction :=
  reads 1 ++ reads 2 ++ ofHost 2 (.call 0 false true ⟨0, 5⟩ :: ofThread 0 21) ++
    .host 1 (.call 0 false true ⟨0, 5⟩) :: asks 1 21 ++
    ofFabric [.dirTick 0, .dirCopy 0, .dirCopy 0, .dirCopy 0, .ccTick 0, .dirTick 1] ++
    ofHost 3 (Host.insertLine 0 ⟨0, 5⟩) ++ asks 3 22 ++
    ofFabric [.dirTick 2, .ccTick 2, .ccCopy 1, .dirTick 4] ++
    .send 2 0 (.about .initDir ⟨0, 5⟩) :: ofFabric [.dirTick 4, .ccTick 4] ++ [.receive 2 0]

end System

end Ting
