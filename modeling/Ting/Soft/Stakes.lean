/-
# `Ting.Soft.Stakes` — which lines a thread has in hand

A thread has a stake in the line whose request it waits for, in the line that it is to evict
next and in the one that it is evicting.  The stake says which statuses the line can be in, and
two threads never have a stake in the same line; only an agent may change the line meanwhile,
and it leaves the stake intact.  A thread that inserts has a stake of another kind, in what it
has read of its set.
-/
import Ting.Soft.SetLock

namespace Ting

/-! ## Statuses that agents leave -/

namespace CacheStatus

/-- A change of status that no stake in the line minds. -/
structure Keeps (s s' : CacheStatus) : Prop where
  stable : s.isStable → s'.isStable
  evicting : s.isEvicting → s'.isEvicting
  invalid : s = .invalid → s' = .invalid
  preserved : s = .preserved → s' = .preserved
  claimed : s = .toShared ∨ s = .toModified → s' = s

theorem Keeps.refl (s : CacheStatus) : s.Keeps s :=
  ⟨id, id, id, id, fun _ => rfl⟩

end CacheStatus

theorem LineInfo.Obeyed.keeps {t : RawMessageType} {l l' : LineInfo} (h : Obeyed t l l') :
    l.status.Keeps l'.status := by
  cases h with
  | invalidated hf hs | taken hf hs | downgraded hf hs | downgradedEvict hf hs =>
      rw [hs]
      constructor <;> simp [CacheStatus.isStable, CacheStatus.isEvicting, setFlagAndStatus]
  | flagged | gone => exact .refl _

/-! ## Stakes -/

/-- How far the eviction of a line is. -/
inductive EvictPhase
  /-- about to take the line out of its status -/
  | trying
  /-- about to drop the line -/
  | ending
  /-- from the request to its answer -/
  | waiting
  deriving DecidableEq

/-- The statuses that a line can have then. -/
def EvictPhase.fits : EvictPhase → CacheStatus → Bool
  | trying, s => s.isStable
  | ending, s => s = .invalid || s.isEvicting
  | waiting, s => s.isEvicting

theorem EvictPhase.fits_keeps {p : EvictPhase} {s s' : CacheStatus} (h : p.fits s)
    (hk : s.Keeps s') : p.fits s' := by
  cases p with
  | trying => exact hk.stable h
  | waiting => exact hk.evicting h
  | ending =>
      simp only [fits, Bool.or_eq_true, decide_eq_true_eq] at h ⊢
      exact h.imp hk.invalid hk.evicting

theorem EvictPhase.fits_ending {s : CacheStatus} (h : waiting.fits s) : ending.fits s := by
  simp only [fits, Bool.or_eq_true] at h ⊢
  exact .inr h

theorem EvictPhase.not_preserved {p : EvictPhase} {s : CacheStatus} (h : p.fits s) :
    s ≠ .preserved := by
  rintro rfl
  cases p <;> cases h

namespace Pc

/-- The line whose request the thread is at, and the status it waits in. -/
def claim : Pc → Option (LineRef × CacheStatus)
  | unlock (.request r k) | request r k | await r k _ _ | spin r k | finish r k _ =>
      some (r, k.toStatus)
  | _ => none

/-- The line that the thread tries to claim. -/
def target : Pc → Option LineRef
  | cas r | casInvalid r => some r
  | _ => none

/-- How far the thread's eviction is. -/
def phase (waitCur : Bool) : Pc → Option EvictPhase
  | evictTry _ => some .trying
  | evictDiscard _ | evictDrop _ => some .ending
  | evictLock _ | evictSend _ | waitEvict | evictRestore | evictSpin => some .waiting
  | evictEnd => none
  | _ => if waitCur then some .waiting else none

/-- The slots that `newLine` has found so far. -/
def slots : Pc → Option Slot × Option Slot
  | scan _ _ available eviction => (available, eviction)
  | _ => (none, none)

end Pc

/-- What a thread has a hand in. -/
structure Stake where
  claim : Option (LineRef × CacheStatus)
  target : Option LineRef
  next : Option LineRef
  cur : Option (LineRef × EvictPhase)
  slots : Option Slot × Option Slot

def Thread.stake (t : Thread) : Stake where
  claim := t.pc.claim
  target := t.pc.target
  next := if t.startNext then some t.next else none
  cur := (t.pc.phase t.waitCur).map fun p => (t.cur, p)
  slots := t.pc.slots

namespace Stake

variable {k k' : Stake} {i : SetIndex} {st st' : LineRef → CacheStatus} {r : LineRef}

/-- The lines that nobody else may have a stake in. -/
def Owns (k : Stake) (r : LineRef) : Prop :=
  (∃ s, k.claim = some (r, s)) ∨ k.next = some r ∨ ∃ p, k.cur = some (r, p)

/-- The statuses of the lines are those that a stake in set `i` asks for. -/
structure Fits (i : SetIndex) (st : LineRef → CacheStatus) (k : Stake) : Prop where
  claim : ∀ r s, k.claim = some (r, s) →
    r.shadow = false ∧ st r = s ∧ (s = .toShared ∨ s = .toModified)
  target : ∀ r, k.target = some r → r.shadow = false ∧ r.set = i
  next : ∀ r, k.next = some r → r.shadow ∧ (st r).isStable
  cur : ∀ r p, k.cur = some (r, p) → r.shadow ∧ p.fits (st r)
  apart : ∀ r p, k.cur = some (r, p) → k.next ≠ some r
  available : ∀ s, k.slots.1 = some s → st ⟨false, i, s⟩ = .preserved
  eviction : ∀ s, k.slots.2 = some s →
    (st ⟨false, i, s⟩).isStable ∧ st ⟨true, i, s⟩ = .preserved

/-- A line that is owned is not `PRESERVED`. -/
theorem Fits.not_preserved (hf : k.Fits i st) (ho : k.Owns r) : st r ≠ .preserved := by
  rcases ho with ⟨s, hs⟩ | hn | ⟨p, hp⟩
  · obtain ⟨-, hs, ht⟩ := hf.claim r s hs
    rw [hs]
    rcases ht with rfl | rfl <;> exact fun h => by cases h
  · intro hp
    have := (hf.next r hn).2
    rw [hp] at this
    cases this
  · exact EvictPhase.not_preserved (hf.cur r p hp).2

/-- In a set itself, only a line that waits is owned. -/
theorem Fits.not_stable (hf : k.Fits i st) (ho : k.Owns r) (hr : r.shadow = false) :
    (st r).isStable = false := by
  rcases ho with ⟨s, hs⟩ | hn | ⟨p, hp⟩
  · obtain ⟨-, hs, ht⟩ := hf.claim r s hs
    rw [hs]
    rcases ht with rfl | rfl <;> rfl
  · rw [(hf.next r hn).1] at hr
    cases hr
  · rw [(hf.cur r p hp).1] at hr
    cases hr

/-- What others do to the lines that one has no stake in does not matter. -/
theorem Fits.frame (hf : k.Fits i st) (howned : ∀ r, k.Owns r → (st r).Keeps (st' r))
    (hslots : k.slots ≠ (none, none) → ∀ r, r.set = i →
      (st r = .preserved → st' r = .preserved) ∧
        (r.shadow = false → (st r).isStable → (st' r).isStable)) : k.Fits i st' where
  claim r s hs := by
    obtain ⟨hr, hst, ht⟩ := hf.claim r s hs
    refine ⟨hr, ?_, ht⟩
    rw [(howned r (.inl ⟨s, hs⟩)).claimed (hst ▸ ht), hst]
  target := hf.target
  next r hr := ⟨(hf.next r hr).1, (howned r (.inr (.inl hr))).stable (hf.next r hr).2⟩
  cur r p hr := ⟨(hf.cur r p hr).1, EvictPhase.fits_keeps (hf.cur r p hr).2 (howned r (.inr (.inr ⟨p, hr⟩)))⟩
  apart := hf.apart
  available s hs :=
    (hslots (fun h => by rw [h] at hs; cases hs) ⟨false, i, s⟩ rfl).1 (hf.available s hs)
  eviction s hs := by
    have hs' : k.slots ≠ (none, none) := fun h => by rw [h] at hs; cases hs
    exact ⟨(hslots hs' ⟨false, i, s⟩ rfl).2 rfl (hf.eviction s hs).1,
      (hslots hs' ⟨true, i, s⟩ rfl).1 (hf.eviction s hs).2⟩

end Stake

/-- Only a thread that holds the write lock of its set has found slots. -/
theorem Pc.slots_eq {pc : Pc} (h : pc.setLock ≠ some true) : pc.slots = (none, none) := by
  cases pc with
  | scan => exact absurd rfl h
  | _ => rfl

/-! ## The flag of an outstanding eviction -/

/-- What `wait_cur_evict_cline_flag` is where the position tells. -/
def Pc.waits : Pc → Option Bool
  | evictTry _ | evictLock _ | evictSend _ | waitEvict | evictRestore | evictSpin => some true
  | evictDiscard false | evictDrop false => some false
  | _ => none

section Waits

variable {t : Thread} {b : Bool}

@[simp] theorem loop_waits : t.loop.waits = none := by
  rcases loop_cases (t := t) with h | h <;> rw [h] <;> rfl

@[simp] theorem afterLookup_waits {h : Host} {line shadow : Option Slot} :
    (h.afterLookup t line shadow).waits = none := by
  rcases afterLookup_cases h t line shadow with ⟨_, h, _⟩ | ⟨_, _, _, h⟩ <;> rw [h] <;> rfl

@[simp] theorem scanSlot_waits {h : Host} {s : Slot} {todo : List Slot} {exist : Bool}
    {available eviction : Option Slot} :
    (h.scanSlot t s todo exist available eviction).waits = none := by
  obtain ⟨_, _, _, h, _⟩ := scanSlot_cases h t s todo exist available eviction
  rw [h]
  rfl

@[simp] theorem pc_waits {k : AfterLookup} : k.pc.waits = none := by
  cases k <;> rfl

theorem onReply_waits {r : LineRef} {kind : RawMessageType} {hasData granted : Bool}
    {curTag : BitVec 64} {m : CtrlMsg} (hpc : t.pc.waits = none) :
    (t.onReply r kind hasData granted curTag m).pc.waits = none := by
  rcases onReply_cases _ _ _ _ _ _ _ with ⟨pc, h, rfl | rfl⟩ | ⟨h, -⟩ <;> rw [h]
  · rcases replySwitch_cases _ _ _ _ _ with h | h | ⟨_, _, ⟨_, h⟩ | h | ⟨_, _, h⟩⟩ <;> rw [h] <;> rfl
  · rfl
  · exact hpc

theorem onEvictReply_waits {tag : BitVec 64} {m : CtrlMsg}
    (h : (t.onEvictReply tag m).pc.waits = some b) : b = true := by
  obtain ⟨pc, ht, rfl | rfl | rfl | rfl⟩ := onEvictReply_cases _ _ _ <;> rw [ht] at h <;> cases h <;> rfl

end Waits

namespace Host

variable {h h' : Host}

/-- The flag agrees with the position. -/
def WaitsWell (h : Host) : Prop :=
  ∀ τ b, (h.threads τ).pc.waits = some b → (h.threads τ).waitCur = b

theorem WaitsWell.step {a : HostAction} (hw : h.WaitsWell) (hs : Stepped h a h') :
    h'.WaitsWell := by
  have hup : ∀ {τ : ThreadId} {t' : Thread} {k : Host},
      k.threads = Function.update h.threads τ t' →
      (∀ b, t'.pc.waits = some b → t'.waitCur = b) → k.WaitsWell := by
    intro τ t' k hth ht
    rw [WaitsWell, hth]
    exact (Function.forall_update_iff h.threads
      (p := fun _ t => ∀ b, Pc.waits t.pc = some b → t.waitCur = b)).mpr ⟨ht, fun σ _ => hw σ⟩
  have hnone : ∀ {τ : ThreadId} {t' : Thread} {k : Host},
      k.threads = Function.update h.threads τ t' → t'.pc.waits = none → k.WaitsWell := by
    intro τ t' k hth ht
    exact hup hth fun b hb => by rw [ht] at hb; cases hb
  have hkeep : ∀ {τ : ThreadId} {t' : Thread} {k : Host} {b : Bool},
      k.threads = Function.update h.threads τ t' → (h.threads τ).pc.waits = some b →
      t'.waitCur = (h.threads τ).waitCur →
      (∀ b', t'.pc.waits = some b' → b' = b) → k.WaitsWell := by
    intro τ t' k b hth hold hwait hnew
    exact hup hth fun b' hb' => by rw [hwait, hw τ b hold, hnew b' hb']
  cases hs with
  | call hpc =>
      refine hup rfl fun b hb => ?_
      dsimp only at hb ⊢
      split at hb
      · split at hb
        next hc => cases hb; exact hc
        next => cases hb
      · cases hb
  | noEvict | lockSet | findSkip | found | shadowSkip | claim | lockSetW | unlockSetW | lineLock
  | checked | unchecked | copy | copied | lineUnlock | request | spun | evictSpun =>
      exact hnone rfl rfl
  | beginEvict | restored => exact hup rfl fun b hb => by cases hb; rfl
  | evictInvalid =>
      refine hup rfl fun b hb => ?_
      rename_i w _ _
      cases w <;> cases hb
      rfl
  | evictClaim hpc | evictLock hpc =>
      exact hkeep (b := true) rfl (by rw [hpc]; rfl) rfl fun b hb => by cases hb; rfl
  | @evictDiscard _ w hpc =>
      cases w with
      | false => exact hkeep (b := false) rfl (by rw [hpc]; rfl) rfl fun b hb => by cases hb; rfl
      | true => exact hnone rfl rfl
  | evictDrop =>
      refine hnone rfl ?_
      dsimp only
      split <;> rfl
  | evictSend hpc =>
      refine hkeep (b := true) rfl (by rw [hpc]; rfl) rfl fun b hb => ?_
      dsimp only at hb
      split at hb <;> cases hb
      rfl
  | looked => exact hnone rfl afterLookup_waits
  | casFail hpc =>
      rcases hpc with ⟨_, ⟨rfl, _⟩ | rfl⟩ | ⟨_, rfl⟩ <;> exact hnone rfl rfl
  | unlock => exact hnone rfl pc_waits
  | scan => exact hnone rfl scanSlot_waits
  | insert hpc hi =>
      obtain ⟨new, t', hth, hpc', -⟩ := hi.thread
      exact hnone hth (by rw [hpc']; rfl)
  | reply hpc => exact hnone rfl (onReply_waits (by rw [hpc]; rfl))
  | finish =>
      refine hnone rfl ?_
      dsimp only
      split <;> rfl
  | bodyEnd =>
      refine hup rfl fun b hb => ?_
      dsimp only at hb ⊢
      split at hb
      next hc =>
        cases hb
        exact (Bool.and_eq_true_iff.mp hc).2
      next => rw [loop_waits] at hb; cases hb
  | unstash hpc | evictReply hpc =>
      exact hkeep (b := true) rfl (by rw [hpc]; rfl) rfl fun b hb => onEvictReply_waits hb
  | evictEnd => exact hnone rfl loop_waits
  | swallow | take | agentLock | agentSkip | agentFound | agentShadowSkip | agentLooked
  | agentObey | agentFault | agentUnlock => exact hw

theorem waitsWell {apptNum : ℕ} {ds : List Addr} (hr : (host apptNum ds).Reachable h) :
    h.WaitsWell :=
  Host.invariant (fun h hi τ b hb => by rw [hi.pc τ] at hb; cases hb)
    (fun _ _ _ _ hw hs => hw.step hs) hr

end Host

end Ting
