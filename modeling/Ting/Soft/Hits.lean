/-
# `Ting.Soft.Hits` — a hit touches the right block

A thread finds its line under the read lock of the set, gives the lock back and takes the lock of
the line.  The line that it copies from or to has the tag of its address as long as no line that
a thread has found so gets another tag from `newLine`.  Nothing in the code rules that out: what
is checked under the lock of the line is the status, and not the tag.
-/
import Ting.Soft.Copying
import Ting.Soft.Unique

namespace Ting

open HostAction (ofThread ofAgent)

namespace Host

variable {h h' : Host} {r : LineRef} {τ : ThreadId} {tag : BitVec 64}

/-- `newLine` is about to give line `r` the tag: the slot that it takes over gets the tag of the
thread, and the one behind it that of the line that is moved. -/
inductive Stores (h : Host) (τ : ThreadId) : LineRef → BitVec 64 → Prop
  | slot {available : Option Slot} {s : Slot}
      (hpc : (h.threads τ).pc = .scan [] false available (some s))
      (ha : available = none ∨ (h.threads τ).stack = []) :
      Stores h τ ⟨false, (h.threads τ).set, s⟩ (h.threads τ).tag
  | shadow {available : Option Slot} {s : Slot}
      (hpc : (h.threads τ).pc = .scan [] false available (some s))
      (ha : available = none ∨ (h.threads τ).stack = [])
      (hst : h.status ⟨false, (h.threads τ).set, s⟩ ≠ .invalid) :
      Stores h τ ⟨true, (h.threads τ).set, s⟩ (h.lines ⟨false, (h.threads τ).set, s⟩).tag

/-- No line that a thread has found gets another tag. -/
def Settled (h : Host) (a : HostAction) : Prop :=
  ∀ τ ptr r tag, a = .insert τ ptr → h.Stores τ r tag →
    ∀ σ, (h.threads σ).pc.hit = some r → (h.lines r).tag = tag

/-- The lines that threads have found have the tags of their addresses. -/
def Aimed (h : Host) : Prop :=
  ∀ τ r, (h.threads τ).pc.hit = some r → Carries h (h.threads τ).tag r

/-- Nothing is inserted over a line that a thread has found, but with the same tag. -/
theorem Carries.inserted {σ : ThreadId} {ptr : Addr} {exist : Bool}
    {available eviction : Option Slot} (hc : Carries h tag r)
    (hi : Inserted h σ ptr exist available eviction h') (hh : h.Owned)
    (hpc : (h.threads σ).pc = .scan [] exist available eviction)
    (hok : ∀ tag', h.Stores σ r tag' → (h.lines r).tag = tag') : Carries h' tag r := by
  have hslots : (h.threads σ).stake.slots = (available, eviction) := by
    rw [Thread.stake, hpc]
    rfl
  cases hi with
  | none => exact hc.kept (.of_eq rfl)
  | @fresh s d ds he hs =>
      have hp := (hh.fits σ).available s (by rw [hslots]; exact hs)
      refine hc.kept (.of_eq ?_)
      rw [setThread_lines, setLine_lines, Function.update_of_ne]
      rintro rfl
      exact hc.full rfl hp
  | @reused s he hs ha hst =>
      subst he hs
      rcases eq_or_ne r ⟨false, (h.threads σ).set, s⟩ with rfl | hne
      · have htag := hok _ (.slot hpc ha)
        exact hc.kept (.of_update (l := { h.lines ⟨false, (h.threads σ).set, s⟩ with
          tag := (h.threads σ).tag, addr := (h.threads σ).addr }) rfl htag.symm id (fun _ => id) _)
      · exact hc.kept (.of_eq (by rw [setThread_lines, setLine_lines, Function.update_of_ne hne]))
  | @moved s he hs ha hst =>
      subst he hs
      rcases eq_or_ne r ⟨false, (h.threads σ).set, s⟩ with rfl | hne
      · have htag := hok _ (.slot hpc ha)
        refine ⟨?_, hc.set, fun _ => ?_⟩
        · rw [setThread_lines, setLine_lines, Function.update_self]
          exact htag.symm.trans hc.tag_eq
        · rw [status, setThread_lines, setLine_lines, Function.update_self]
          rintro ⟨⟩
      rcases eq_or_ne r ⟨true, (h.threads σ).set, s⟩ with rfl | hne'
      · have htag := hok _ (.shadow hpc ha hst)
        refine ⟨?_, hc.set, (by rintro ⟨⟩)⟩
        rw [setThread_lines, setLine_lines, Function.update_of_ne hne, setLine_lines,
          Function.update_self]
        exact htag.symm.trans hc.tag_eq
      · refine hc.kept (.of_eq ?_)
        rw [setThread_lines, setLine_lines, Function.update_of_ne hne, setLine_lines,
          Function.update_of_ne hne']

theorem Aimed.step {a : HostAction} (ha : h.Aimed) (hs : Stepped h a h') (ht : h.Tagged)
    (hh : h.Owned) (hok : h.Settled a) : h'.Aimed := by
  intro τ r hr
  rcases hs.approach hr with he | ⟨hno, haddr, -, happ⟩
  · rw [he] at hr ⊢
    have hc := ha τ r hr
    rcases hs.kept hh r with hk | ⟨σ, ptr, rfl, -⟩
    · exact hc.kept hk
    · cases hs with
      | insert hpc hi => exact hc.inserted hi hh hpc fun tag hst => hok _ _ r tag rfl hst τ hr
  · have hk : Kept h h' r := (hs.kept hh r).resolve_right fun ⟨σ, ptr, he, _⟩ => hno σ ptr he
    have htag : (h'.threads τ).tag = (h.threads τ).tag := by rw [Thread.tag, haddr, Thread.tag]
    rw [htag]
    generalize (h'.threads τ).pc = pc' at happ
    cases happ with
    | found hpc | granted hpc => exact (ht.found τ r (by rw [hpc]; rfl)).kept hk
    | locked hpc | checked hpc | copy hpc => exact (ha τ r (by rw [hpc]; rfl)).kept hk

theorem aimed {apptNum : ℕ} {ds : List Addr} (hr : (host apptNum ds).ReachableWhen Settled h) :
    h.Aimed :=
  Host.invariantWhen (fun _ hi τ r hp => by rw [hi.pc τ] at hp; cases hp)
    (fun _ _ _ hr hok ha hs => ha.step hs (tagged hr) (owned hr) hok) hr

/-- Whenever a copy begins, the line has the tag of the address. -/
theorem hit_right_block {apptNum : ℕ} {ds : List Addr}
    (hr : (host apptNum ds).ReachableWhen Settled h) :
    ∀ τ r, (h.threads τ).pc = .copy r → (h.lines r).tag = (h.threads τ).addr.getTag := by
  intro τ r hpc
  exact (aimed hr τ r (by rw [hpc]; rfl)).tag_eq

/-- The guard as a check that a run can evaluate: `newLine` takes over no slot. -/
def roomy (h : Host) : HostAction → Bool
  | .insert τ _ => match (h.threads τ).pc with
      | .scan _ _ _ (some _) => false
      | _ => true
  | _ => true

theorem settled_of_roomy (h : Host) (a : HostAction) (hc : h.roomy a) : h.Settled a := by
  rintro τ ptr r tag rfl hst
  cases hst with
  | slot hpc | shadow hpc =>
      rw [roomy, hpc] at hc
      cases hc

theorem hit_right_block_read : ∃ h : Host, (h.threads 0).pc = .copy ⟨false, 63045, 7⟩ ∧
    (h.lines ⟨false, 63045, 7⟩).tag = (h.threads 0).addr.getTag := by
  obtain ⟨h, hr, hpc⟩ := TransitionSystem.exists_reachableWhen (T := host 1 [1])
    (f := fun h => (h.threads 0).pc) (v := .copy ⟨false, 63045, 7⟩)
    (insertLine 0 ⟨0, 5⟩ ++ ofThread 0 22 ++ .send 0 (.about .initDir ⟨0, 5⟩) ::
      .receive 0 (.about .dir2AppReadMissAckdata ⟨0, 5⟩) :: ofThread 0 3)
    settled_of_roomy (start_init 0 1 [1]) (by decide +kernel)
  exact ⟨h, hpc, hit_right_block hr 0 _ hpc⟩

/-- Thread 0 has read block 5 and is about to lock its line when an agent invalidates it.
Thread 1, which has no buffers, takes over the slot and reads block 507 into it; and thread 0
copies from the line. -/
theorem hit_wrong_block : ¬ ∀ (apptNum : ℕ) (ds : List Addr) (h : Host),
    (host apptNum ds).Reachable h →
    ∀ τ r, (h.threads τ).pc = .copy r → (h.lines r).tag = (h.threads τ).addr.getTag := by
  intro hall
  obtain ⟨h, hr, hv⟩ := TransitionSystem.exists_reachable (T := host 1 [1])
    (f := fun h => ((h.threads 0).pc, (h.lines ⟨false, 63045, 7⟩).tag, (h.threads 0).addr))
    (v := (.copy ⟨false, 63045, 7⟩, Block.getTag ⟨0, 507⟩, ⟨0, 5⟩))
    (insertLine 0 ⟨0, 5⟩ ++ ofThread 0 22 ++ .send 0 (.about .initDir ⟨0, 5⟩) ::
        .receive 0 (.about .dir2AppReadMissAckdata ⟨0, 5⟩) :: ofThread 0 1 ++
      .take 0 (.about .dir2AgentWriteMissShared ⟨0, 5⟩) :: ofAgent 0 20 ++
      insertLine 1 ⟨0, 507⟩ ++ missLine 1 ⟨0, 507⟩ 8 ++ ofThread 0 2)
    (start_init 0 1 [1]) (by decide +kernel)
  obtain ⟨hpc, hv⟩ := Prod.mk.inj hv
  obtain ⟨htag, haddr⟩ := Prod.mk.inj hv
  have := hall 1 [1] h hr 0 _ hpc
  rw [htag, haddr] at this
  exact absurd this (by decide)

end Host

end Ting
