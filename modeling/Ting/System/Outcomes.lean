/-
# `Ting.System.Outcomes` — one outcome per request

What the threads of all nodes take from their queues, request by request.
-/
import Ting.Protocol.Outcomes
import Ting.System.Refinement

namespace Ting

namespace System

variable {qNum apptNum : ℕ} {ds : NodeId → List Addr} {s : System} {p : Protocol} {o : Origin}

/-- A copy that waits for an answer is in a transient line. -/
theorem Refines.waiting_line (hR : s.Refines p) (hp : (protocol qNum).Reachable p)
    {w : Bool × Bool} (hw : (p.copies o.node o.block).awaits o = some w) :
    ∃ r, ((s.hosts o.node).status r).isTransient ∧ (s.hosts o.node).address r = o.block := by
  obtain ⟨q, hq, -⟩ := Copy.awaits_eq_some.mp hw
  obtain ⟨r, hr, ha⟩ := (hR.copies o.node).found o.block (by rw [hq]; rintro ⟨⟩)
  have hat := (hR.copies o.node).line r hr
  rw [ha, hq] at hat
  have hasked := Protocol.asked hp o.node o.block
  rw [hq] at hasked
  have hst : (s.hosts o.node).status r = q.status := hat.2.1
  exact ⟨r, by rw [hst]; exact Claim.status_isTransient hasked.isRequest, ha⟩

/-- One outcome per request: whatever is delivered under a request goes to the thread that sent
it.  Once its line waits no more, that is one outcome of a type that the request can have, and no
answer to it is left; until then the line is transient, at most half of an answer has come, and
the rest is still to come, once. -/
theorem one_outcome (h : (system qNum apptNum ds).Reachable s) {i : ℕ} (hi : s.issued i = some o) :
    (∀ x ∈ s.replies i, x.node = o.node ∧ x.thread = o.header.reqClineAppThreadID) ∧
      (o.ticket.kind.outcomeOf ((s.replies i).map (·.mtype)) ∧
          (∀ f ∈ s.fabric.flights, f.packet.origin = o → f.packet.msg.mtype.isAnswer = false) ∨
        ∃ w r, (s.replies i).map (·.mtype) = RawMessageType.halves w ∧
          ((s.hosts o.node).status r).isTransient ∧ (s.hosts o.node).address r = o.block ∧
          (Ledger.seeking o).value s.fabric + (Ledger.answering o).value s.fabric
            = (!w.2).toNat ∧
          (w.2 → (Ledger.descending Flight.shareddata o).value s.fabric = 1)) := by
  obtain ⟨p, hp, hR⟩ := refines h
  have hacc := Protocol.accounted hp
  have hsum := hacc.sum i o (hR.issued ▸ hi)
  have htaken := hacc.taken i o (hR.issued ▸ hi)
  rw [hR.replies] at hsum htaken
  refine ⟨htaken, ?_⟩
  rw [← hR.fabric]
  cases hw : (p.copies o.node o.block).awaits o with
  | none =>
      rw [hw] at hsum
      exact .inl ⟨hsum, fun f hf => Protocol.no_answer hp hw hf⟩
  | some w =>
      rw [hw] at hsum
      obtain ⟨r, hr, ha⟩ := hR.waiting_line hp hw
      exact .inr ⟨w, r, hsum, hr, ha, Protocol.under_way hp hw⟩

/-- After a read miss on a block that nobody has. -/
theorem one_outcome_read : ∃ (s : System) (o : Origin), s.issued 0 = some o ∧
    o.ticket.kind.outcomeOf ((s.replies 0).map (·.mtype)) ∧
    ∀ f ∈ s.fabric.flights, f.packet.origin = o → f.packet.msg.mtype.isAnswer = false := by
  obtain ⟨s, hr, hv⟩ := TransitionSystem.exists_reachable (T := system 8 1 fun _ => [1])
    (f := fun s => ((s.issued 0).isSome, (s.replies 0).map (·.mtype)))
    (v := (true, [.dir2AppReadMissAckdata])) (reads 1) (start_init 1 fun _ => [1])
    (by decide +kernel)
  obtain ⟨hi, ht⟩ := Prod.mk.inj hv
  obtain ⟨o, ho⟩ := Option.isSome_iff_exists.mp hi
  refine ⟨s, o, ho, (one_outcome hr ho).2.resolve_right ?_⟩
  rintro ⟨w, -, hw, -⟩
  rw [ht] at hw
  revert w
  decide

end System

end Ting
