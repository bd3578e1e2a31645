/-
# `Ting.System.Orders` — orders that have not been carried out

An order of a directory is pending at a node from the moment it is sent until an agent has
carried it out: it is in transit, or an agent has it in hand.  The balances of `Ting.Protocol`
count the pending orders; here they are looked up in the queues and the agents.
-/
import Ting.System.Refinement

namespace Ting

open Total

/-- Message `m` is an order of class `d` to node `n` about block `b`. -/
structure CtrlMsg.OrderOf (d : RawMessageType → Bool) (n : NodeId) (b : Block) (m : CtrlMsg) :
    Prop where
  mtype : d m.mtype
  node : m.agentClineNodeID = n
  block : m.block = b
  tag : m.clineTag = b.getTag

theorem CtrlMsg.forAgent_pos {d : RawMessageType → Bool} {n : NodeId} {b : Block} {m : CtrlMsg}
    (h : 0 < m.forAgent d n b) : d m.mtype ∧ m.block = b ∧ m.agentClineNodeID = n := by
  unfold forAgent at h
  split at h
  next hd =>
    refine ⟨hd, ?_⟩
    by_contra hn
    rw [meantFor, ind_of_not hn] at h
    cases h
  next => cases h

namespace System

/-- An order of class `d` about block `b` is pending at node `n`. -/
def Pending (s : System) (d : RawMessageType → Bool) (n : NodeId) (b : Block) : Prop :=
  (∃ f ∈ s.fabric.flights, f.packet.msg.OrderOf d n b) ∨
    ∃ a m, ((s.hosts n).agents a).order = some m ∧ m.OrderOf d n b

variable {qNum apptNum : ℕ} {ds : NodeId → List Addr} {s : System} {p : Protocol}
  {d : RawMessageType → Bool} {n : NodeId} {b : Block}

/-- The orders that the balances count. -/
theorem Refines.pending (hR : s.Refines p) (hp : (protocol qNum).Reachable p) :
    s.Pending d n b ↔ 1 ≤ (Ledger.meant d n b).value p.fabric ∨ 1 ≤ p.held d n b := by
  have hval : (Ledger.meant d n b).value p.fabric
      = total (fun f => f.packet.msg.forAgent d n b) p.fabric.flights := by
    show total _ _ + ∑ _k : NodeId, 0 + 0 + 0 = _
    rw [Finset.sum_const_zero]
    rfl
  have hone : ∀ {m : CtrlMsg}, m.OrderOf d n b → m.forAgent d n b = 1 := fun hm => by
    rw [CtrlMsg.forAgent_self hm.block hm.node, hm.mtype]
    rfl
  constructor
  · rintro (⟨f, hf, hm⟩ | ⟨a, m, ha, hm⟩)
    · rw [← hR.fabric] at hf
      have hle := le_total (f := fun f : Flight => f.packet.msg.forAgent d n b) hf
      rw [hone hm] at hle
      exact .inl (hval ▸ hle)
    · obtain ⟨k, hk, rfl⟩ := Option.map_eq_some_iff.mp ((hR.hands n a).trans ha)
      have hle := le_sum (fun a => (p.hands n a).elim 0 (·.msg.forAgent d n b)) a
      rw [hk] at hle
      exact .inr ((hone hm).ge.trans hle)
  · rintro (h | h)
    · rw [hval] at h
      obtain ⟨f, hf, hpos⟩ := exists_of_total_pos h
      obtain ⟨hd, hb, hn⟩ := CtrlMsg.forAgent_pos hpos
      have htag := Ledger.flawed_zero (Protocol.tagged hp b) hf hb
      rw [hR.fabric] at hf
      exact .inl ⟨f, hf, hd, hn, hb, (of_decide_eq_true htag).trans (congrArg Block.getTag hb)⟩
    · obtain ⟨a, -, hpos⟩ := Finset.exists_ne_zero_of_sum_ne_zero (Nat.pos_iff_ne_zero.mp h)
      cases hk : p.hands n a with
      | none =>
          rw [hk] at hpos
          exact absurd rfl hpos
      | some k =>
          rw [hk] at hpos
          obtain ⟨hd, hb, hn⟩ := CtrlMsg.forAgent_pos (Nat.pos_iff_ne_zero.mpr hpos)
          obtain ⟨-, -, htag⟩ := Protocol.hands_order hp hk
          refine .inr ⟨a, k.msg, ?_, hd, hn, hb, (of_decide_eq_true htag).trans (congrArg _ hb)⟩
          rw [← hR.hands n a, hk]
          rfl

/-- Whatever an agent has in hand is an order to its own node. -/
theorem Refines.orderOf (hR : s.Refines p) (hp : (protocol qNum).Reachable p) {a : AgentId}
    {m : CtrlMsg} (ha : ((s.hosts n).agents a).order = some m) (hd : d m.mtype) :
    m.mtype.isOrder ∧ m.OrderOf d n m.block := by
  obtain ⟨k, hk, rfl⟩ := Option.map_eq_some_iff.mp ((hR.hands n a).trans ha)
  obtain ⟨hord, hn, htag⟩ := Protocol.hands_order hp hk
  exact ⟨hord, hd, hn, rfl, of_decide_eq_true htag⟩

end System

end Ting
