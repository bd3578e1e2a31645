/-
# `Ting.System.Backing` — what stands behind a line

A line that permits an access is backed by the directory, which counts its node among the holders
of the block, or it is one that an invalidation is pending for.  A line that may be written is
backed as such, or an order is pending that takes the right to write away.

The directory counts a node before the entry says so: from the moment that the owner of the block
has shipped it to the node.  And it counts a node that it still owes an invalidation.
-/
import Ting.Hls.Ownership
import Ting.Protocol.Refusals
import Ting.Protocol.Writes
import Ting.System.Orders
import Ting.System.Settles

namespace Ting

/-- The directory counts node `n` among the holders of block `b`. -/
def Fabric.Counts (s : Fabric) (n : NodeId) (b : Block) : Prop :=
  1 ≤ s.owning n b + (Ledger.owing n b).value s

/-- It counts it as the one that may write. -/
def Fabric.CountsWriter (s : Fabric) (n : NodeId) (b : Block) : Prop :=
  1 ≤ s.writeOwning n b

/-- The line of a claimed copy permits nothing. -/
theorem Claim.not_permits {q : Claim} {w : Bool} : q.status.permits w = false := by
  unfold status
  split
  next => split <;> rfl
  next => rcases q.kind.toStatus_eq with hk | hk <;> rw [hk] <;> rfl

namespace Protocol

variable {qNum : ℕ} {p : Protocol} {n : NodeId} {b : Block}

/-- No outcome of a request is on its way to a copy that waits for none. -/
theorem asked_zero (h : (protocol qNum).Reachable p) {d : RawMessageType → Bool}
    (hd : ∀ t, d t = true → t.isOutcome = true) (hw : ∀ o, (p.copies n b).awaits o = none) :
    (Ledger.asked d n b).value p.fabric = 0 := by
  by_contra hne
  obtain ⟨q, o, hasData, hc, hq, -⟩ := awaits_of_asked h hd (Nat.pos_of_ne_zero hne)
  have := hw o
  rw [Copy.awaits_eq_some (w := (hasData, false)) |>.mpr ⟨q, hc, hq⟩] at this
  cases this

/-- A copy that waits for nothing stands for the directory's count and for the invalidations that
are pending. -/
theorem right_eq (h : (protocol qNum).Reachable p) (hw : ∀ o, (p.copies n b).awaits o = none)
    (hf : (p.copies n b).flagged = false) : (p.copies n b).right
      = p.fabric.owning n b + (Ledger.owing n b).value p.fabric
        + ((Ledger.meant (·.revokes) n b).value p.fabric + p.held (·.revokes) n b) := by
  have hr := rights h n b
  have hrel : p.fabric.releasing n b = 0 := asked_zero h (by decide) hw
  rw [granting_zero h hw, hrel, revoking_eq, hf] at hr
  change _ = _ + 0 at hr
  omega

/-- A copy at rest that may be written is that of the writer, or an order is pending that takes
the right away. -/
theorem write_of_modified (h : (protocol qNum).Reachable p) {u : Option ThreadId}
    (hc : p.copies n b = .resting .modified u) :
    1 ≤ p.fabric.writeOwning n b + ((Ledger.meant (·.takesWrite) n b).value p.fabric
      + p.held (·.takesWrite) n b) := by
  have hw := writes_le h n b (by rw [hc]; rfl)
  have hrel : (Ledger.asked (·.isDirtyEvictAck) n b).value p.fabric = 0 :=
    asked_zero h (by decide) fun o => by rw [hc]; rfl
  rw [writing, hc, writeHeld, Ledger.writeHolding, Ledger.value_add, Ledger.value_add, hrel] at hw
  change 1 + _ ≤ p.fabric.writeOwning n b + _ + 0 + _ at hw
  omega

end Protocol

/-- Node `n` has a line for block `b` that permits the access. -/
def System.Permits (s : System) (n : NodeId) (b : Block) (w : Bool) : Prop :=
  ∃ r, ((s.hosts n).status r).permits w ∧ (s.hosts n).address r = b

namespace System

variable {qNum apptNum : ℕ} {ds : NodeId → List Addr} {s : System} {p : Protocol} {n : NodeId}
  {b : Block} {w : Bool}

/-- What a line permits is what the copy permits, which is at rest. -/
theorem Refines.permits_iff (hR : s.Refines p) :
    s.Permits n b w ↔ ∃ st u, p.copies n b = .resting st u ∧ st.status.permits w := by
  constructor
  · rintro ⟨r, hp, rfl⟩
    have hat := (hR.copies n).line r fun he => by
      rw [he] at hp
      cases hp
    rw [Host.status] at hp
    cases hc : p.copies n ((s.hosts n).address r) with
    | absent =>
        rw [hc] at hat
        cases hat
    | resting st u =>
        rw [hc] at hat
        exact ⟨st, u, rfl, hat.2.1 ▸ hp⟩
    | claimed q =>
        rw [hc] at hat
        rw [hat.2.1, Claim.not_permits] at hp
        cases hp
  · rintro ⟨st, u, hc, hw⟩
    obtain ⟨r, hne, rfl⟩ := (hR.copies n).found b (by rw [hc]; rintro ⟨⟩)
    have hat := (hR.copies n).line r hne
    rw [hc] at hat
    refine ⟨r, ?_, rfl⟩
    rw [Host.status, hat.2.1]
    exact hw

/-- A line that permits reading: the directory counts its node, or an invalidation is pending, and
not both. -/
theorem Refines.backed (hR : s.Refines p) (hp : (protocol qNum).Reachable p)
    (hr : s.Permits n b false) : s.fabric.Counts n b ↔ ¬ s.Pending (·.revokes) n b := by
  obtain ⟨st, u, hc, hst⟩ := hR.permits_iff.mp hr
  have hright := Protocol.right_eq hp (n := n) (b := b) (fun o => by rw [hc]; rfl) (by rw [hc]; rfl)
  have hone : (p.copies n b).right = 1 := by
    rw [hc]
    cases st <;> first | rfl | cases hst
  rw [hR.pending hp, Fabric.Counts, ← hR.fabric]
  omega

/-- A line that permits writing: the directory counts its node as the writer, or an order is
pending that takes the right away. -/
theorem Refines.backed_write (hR : s.Refines p) (hp : (protocol qNum).Reachable p)
    (hr : s.Permits n b true) : s.fabric.CountsWriter n b ∨ s.Pending (·.takesWrite) n b := by
  obtain ⟨st, u, hc, hst⟩ := hR.permits_iff.mp hr
  obtain rfl : st = .modified := by cases st <;> first | rfl | cases hst
  have hw := Protocol.write_of_modified hp hc
  rw [hR.pending hp, Fabric.CountsWriter, ← hR.fabric]
  omega

end System

end Ting
