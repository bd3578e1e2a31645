/-
# `Ting.Soft.SetLock` — who is inside a set

The lock of a set is its counter and nothing else.  Counting the threads and agents that are
between taking and giving it back shows that a thread that inserts a line is alone in its set:
no other thread is looking there, nor is any agent.
-/
import Ting.Lib.RwLock
import Ting.Lib.Total
import Ting.Soft.HostStepped

open Total RwLock

namespace Ting

/-- The lock of its set that a thread holds; `some true` is the write lock. -/
def Pc.setLock : Pc → Option Bool
  | .find _ | .findShadow _ _ | .cas _ | .casInvalid _ | .unlock _ => some false
  | .scan _ _ _ _ | .unlockSetW _ => some true
  | _ => none

/-- The thread holds the lock of set `i`, for writing or for reading. -/
def Thread.inSet (t : Thread) (write : Bool) (i : SetIndex) : Prop :=
  t.pc.setLock = some write ∧ t.set = i

instance (t : Thread) (write : Bool) (i : SetIndex) : Decidable (t.inSet write i) :=
  inferInstanceAs (Decidable (_ ∧ _))

/-- The set in which an agent holds the lock. -/
def AgentPc.inSet : AgentPc → Option SetIndex
  | .find m _ | .findShadow m _ _ | .loop m _ | .unlock m => some (calLineSet m.clineTag)
  | _ => none

/-! ## Positions -/

section Positions

variable {t t' : Thread} {w : Bool} {i : SetIndex}

@[simp] theorem loop_setLock : t.loop.setLock = none := by
  rcases loop_cases (t := t) with h | h <;> rw [h] <;> rfl

@[simp] theorem afterLookup_setLock {h : Host} {line shadow : Option Slot} :
    (h.afterLookup t line shadow).setLock = some false := by
  rcases afterLookup_cases h t line shadow with ⟨_, h, _⟩ | ⟨_, _, _, h⟩ <;> rw [h] <;> rfl

@[simp] theorem scanSlot_setLock {h : Host} {s : Slot} {todo : List Slot} {exist : Bool}
    {available eviction : Option Slot} :
    (h.scanSlot t s todo exist available eviction).setLock = some true := by
  obtain ⟨_, _, _, h, _⟩ := scanSlot_cases h t s todo exist available eviction
  rw [h]
  rfl

@[simp] theorem pc_setLock {k : AfterLookup} : k.pc.setLock = none := by
  cases k <;> rfl

theorem onReply_setLock {r : LineRef} {kind : RawMessageType} {hasData granted : Bool}
    {curTag : BitVec 64} {m : CtrlMsg} (hpc : t.pc.setLock = none) :
    (t.onReply r kind hasData granted curTag m).pc.setLock = none := by
  rcases onReply_cases _ _ _ _ _ _ _ with ⟨pc, h, rfl | rfl⟩ | ⟨h, -⟩ <;> rw [h]
  · rcases replySwitch_cases _ _ _ _ _ with h | h | ⟨_, _, ⟨_, h⟩ | h | ⟨_, _, h⟩⟩ <;> rw [h] <;> rfl
  · rfl
  · exact hpc

theorem onEvictReply_setLock {tag : BitVec 64} {m : CtrlMsg} :
    (t.onEvictReply tag m).pc.setLock = none := by
  obtain ⟨pc, h, rfl | rfl | rfl | rfl⟩ := onEvictReply_cases _ _ _ <;> rw [h] <;> rfl

@[simp] theorem retryEvict_pc : t.retryEvict.pc = .evictTry true := rfl

theorem afterFind_inSet {m : CtrlMsg} {line shadow : Option Slot} :
    (Host.afterFind m line shadow).inSet = some (calLineSet m.clineTag) ∨
      (Host.afterFind m line shadow).inSet = none := by
  cases line <;> cases shadow
  · exact .inl rfl
  · exact .inl rfl
  · exact .inl rfl
  · exact .inr rfl

/-- A thread that holds no lock before and after has not moved. -/
theorem inSet_iff_of_none (ht : t.pc.setLock = none) (ht' : t'.pc.setLock = none) :
    t'.inSet w i ↔ t.inSet w i := by
  simp only [Thread.inSet, ht, ht', reduceCtorEq, false_and]

/-- Nor has one that keeps the lock it has. -/
theorem inSet_iff_of_eq (ht : t'.pc.setLock = t.pc.setLock) (hset : t'.set = t.set) :
    t'.inSet w i ↔ t.inSet w i := by
  rw [Thread.inSet, Thread.inSet, ht, hset]

end Positions

/-! ## Counting -/

namespace Host

/-- The readers inside set `i`. -/
def setReaders (h : Host) (i : SetIndex) : ℕ :=
  ∑ τ, ind ((h.threads τ).inSet false i) + ∑ a, ind ((h.agents a).inSet = some i)

/-- The writers inside set `i`. -/
def setWriters (h : Host) (i : SetIndex) : ℕ :=
  ∑ τ, ind ((h.threads τ).inSet true i)

/-- The locks of the sets account for all that are inside. -/
def SetsHeld (h : Host) : Prop :=
  ∀ i, Held (h.setLock i) (h.setReaders i) (h.setWriters i)

variable {h h' : Host} {τ : ThreadId} {t' : Thread} {a : AgentId} {p' : AgentPc}

theorem setReaders_thread (hth : h'.threads = Function.update h.threads τ t')
    (hag : h'.agents = h.agents) (i : SetIndex) :
    h'.setReaders i + ind ((h.threads τ).inSet false i)
      = h.setReaders i + ind (t'.inSet false i) := by
  have := sum_update (fun _ t => ind (Thread.inSet t false i)) h.threads τ t'
  rw [setReaders, setReaders, hth, hag]
  omega

theorem setWriters_thread (hth : h'.threads = Function.update h.threads τ t') (i : SetIndex) :
    h'.setWriters i + ind ((h.threads τ).inSet true i)
      = h.setWriters i + ind (t'.inSet true i) := by
  have := sum_update (fun _ t => ind (Thread.inSet t true i)) h.threads τ t'
  rw [setWriters, setWriters, hth]
  omega

theorem setReaders_agent (hth : h'.threads = h.threads)
    (hag : h'.agents = Function.update h.agents a p') (i : SetIndex) :
    h'.setReaders i + ind ((h.agents a).inSet = some i)
      = h.setReaders i + ind (p'.inSet = some i) := by
  have := sum_update (fun _ p => ind (AgentPc.inSet p = some i)) h.agents a p'
  rw [setReaders, setReaders, hth, hag]
  omega

theorem le_setReaders (h : Host) (τ : ThreadId) (i : SetIndex) :
    ind ((h.threads τ).inSet false i) ≤ h.setReaders i :=
  le_trans (le_sum (fun τ => ind ((h.threads τ).inSet false i)) τ) (Nat.le_add_right _ _)

theorem le_setReaders_agent (h : Host) (a : AgentId) (i : SetIndex) :
    ind ((h.agents a).inSet = some i) ≤ h.setReaders i :=
  le_trans (le_sum (fun a => ind ((h.agents a).inSet = some i)) a) (Nat.le_add_left _ _)

theorem le_setWriters (h : Host) (τ : ThreadId) (i : SetIndex) :
    ind ((h.threads τ).inSet true i) ≤ h.setWriters i :=
  le_sum (fun τ => ind ((h.threads τ).inSet true i)) τ

/-- A step of a thread, seen from the lock of one set: `r` readers and `w` writers are others. -/
theorem SetsHeld.thread (hh : h.SetsHeld) (hth : h'.threads = Function.update h.threads τ t')
    (hag : h'.agents = h.agents)
    (hstep : ∀ i r w, Held (h.setLock i) (r + ind ((h.threads τ).inSet false i))
        (w + ind ((h.threads τ).inSet true i)) →
      Held (h'.setLock i) (r + ind (t'.inSet false i)) (w + ind (t'.inSet true i))) :
    h'.SetsHeld := by
  intro i
  have hr := setReaders_thread hth hag i
  have hw := setWriters_thread hth i
  have hle := h.le_setReaders τ i
  have hle' := h.le_setWriters τ i
  have := hstep i (h.setReaders i - ind ((h.threads τ).inSet false i))
    (h.setWriters i - ind ((h.threads τ).inSet true i))
    (by rw [Nat.sub_add_cancel hle, Nat.sub_add_cancel hle']; exact hh i)
  rwa [show h.setReaders i - ind ((h.threads τ).inSet false i) + ind (t'.inSet false i)
      = h'.setReaders i by omega,
    show h.setWriters i - ind ((h.threads τ).inSet true i) + ind (t'.inSet true i)
      = h'.setWriters i by omega] at this

/-- The same for an agent. -/
theorem SetsHeld.agent (hh : h.SetsHeld) (hth : h'.threads = h.threads)
    (hag : h'.agents = Function.update h.agents a p')
    (hstep : ∀ i r w, Held (h.setLock i) (r + ind ((h.agents a).inSet = some i)) w →
      Held (h'.setLock i) (r + ind (p'.inSet = some i)) w) : h'.SetsHeld := by
  intro i
  have hr := setReaders_agent hth hag i
  have hle := h.le_setReaders_agent a i
  have hw : h'.setWriters i = h.setWriters i := by rw [setWriters, setWriters, hth]
  have := hstep i (h.setReaders i - ind ((h.agents a).inSet = some i)) (h.setWriters i)
    (by rw [Nat.sub_add_cancel hle]; exact hh i)
  rwa [show h.setReaders i - ind ((h.agents a).inSet = some i) + ind (p'.inSet = some i)
      = h'.setReaders i by omega, ← hw] at this

/-- Steps that touch no lock of a set, nor who is inside. -/
theorem SetsHeld.quiet (hh : h.SetsHeld) (hth : h'.threads = Function.update h.threads τ t')
    (hag : h'.agents = h.agents) (hl : h'.setLock = h.setLock)
    (ht : ∀ w i, t'.inSet w i ↔ (h.threads τ).inSet w i) : h'.SetsHeld := by
  refine hh.thread hth hag fun i r w hheld => ?_
  rwa [hl, ind_congr (ht false i), ind_congr (ht true i)]

/-- An agent that stops for ever keeps the lock it has. -/
theorem SetsHeld.quietAgent (hh : h.SetsHeld) (hth : h'.threads = h.threads)
    (hag : h'.agents = Function.update h.agents a p') (hl : h'.setLock = h.setLock)
    (ht : p'.inSet = (h.agents a).inSet ∨ p'.inSet = none) : h'.SetsHeld := by
  refine hh.agent hth hag fun i r w hheld => ?_
  rw [hl]
  rcases ht with ht | ht
  · rwa [ht]
  · refine hheld.mono (Nat.add_le_add_left ?_ r) (Nat.le_refl w)
    rw [ht]
    exact Nat.zero_le _

/-- A change of one set's lock leaves the other sets alone. -/
theorem SetsHeld.threadAt {i : SetIndex} {v : ℕ} (hh : h.SetsHeld)
    (hth : h'.threads = Function.update h.threads τ t') (hag : h'.agents = h.agents)
    (hl : h'.setLock = Function.update h.setLock i v) (hset : (h.threads τ).set = i)
    (hset' : t'.set = i)
    (hstep : ∀ r w, Held (h.setLock i) (r + ind ((h.threads τ).pc.setLock = some false))
        (w + ind ((h.threads τ).pc.setLock = some true)) →
      Held v (r + ind (t'.pc.setLock = some false)) (w + ind (t'.pc.setLock = some true))) :
    h'.SetsHeld := by
  refine hh.thread hth hag fun j r w hheld => ?_
  rw [hl]
  rcases eq_or_ne j i with rfl | hne
  · simp only [Thread.inSet, hset, hset', and_true] at hheld ⊢
    rw [Function.update_self]
    exact hstep r w hheld
  · simp only [Thread.inSet, hset, hset', hne.symm, and_false, ind_false] at hheld ⊢
    rwa [Function.update_of_ne hne]

theorem SetsHeld.agentAt {i : SetIndex} {v : ℕ} (hh : h.SetsHeld) (hth : h'.threads = h.threads)
    (hag : h'.agents = Function.update h.agents a p')
    (hl : h'.setLock = Function.update h.setLock i v)
    (hold : (h.agents a).inSet = none ∨ (h.agents a).inSet = some i)
    (hnew : p'.inSet = none ∨ p'.inSet = some i)
    (hstep : ∀ r w, Held (h.setLock i) (r + ind ((h.agents a).inSet = some i)) w →
      Held v (r + ind (p'.inSet = some i)) w) : h'.SetsHeld := by
  refine hh.agent hth hag fun j r w hheld => ?_
  rw [hl]
  rcases eq_or_ne j i with rfl | hne
  · rw [Function.update_self]
    exact hstep r w hheld
  · have hno : ∀ o : Option SetIndex, o = none ∨ o = some i → ind (o = some j) = 0 := by
      rintro o (rfl | rfl)
      · exact ind_of_not (by simp)
      · exact ind_of_not (by simpa using hne.symm)
    rw [hno _ hold] at hheld
    rwa [Function.update_of_ne hne, hno _ hnew]

/-! ## Steps -/

/-- An insertion moves its thread on and touches no lock of a set. -/
theorem Inserted.thread {ptr : Addr} {exist : Bool} {available eviction : Option Slot}
    (hi : Inserted h τ ptr exist available eviction h') : ∃ new t',
      h'.threads = Function.update h.threads τ t' ∧ t'.pc = .unlockSetW new ∧
        t'.addr = (h.threads τ).addr ∧ h'.agents = h.agents ∧ h'.setLock = h.setLock := by
  cases hi <;> exact ⟨_, _, rfl, rfl, rfl, rfl, rfl⟩

theorem SetsHeld.init {apptNum : ℕ} {ds : List Addr} (hi : Init apptNum ds h) : h.SetsHeld := by
  intro i
  have hr : h.setReaders i = 0 := Nat.add_eq_zero_iff.mpr
    ⟨Finset.sum_eq_zero fun τ _ => ind_of_not (by simp [Thread.inSet, hi.pc τ, Pc.setLock]),
      Finset.sum_eq_zero fun a _ => ind_of_not (by simp [hi.agents a, AgentPc.inSet])⟩
  have hw : h.setWriters i = 0 := Finset.sum_eq_zero fun τ _ =>
    ind_of_not (by simp [Thread.inSet, hi.pc τ, Pc.setLock])
  rw [hi.setLock i, hr, hw]
  exact held_zero

theorem SetsHeld.step {a : HostAction} (hh : h.SetsHeld) (hs : Stepped h a h') : h'.SetsHeld := by
  have hnone : ∀ {τ : ThreadId} {t' : Thread} {k : Host},
      k.threads = Function.update h.threads τ t' → k.agents = h.agents →
      k.setLock = h.setLock → (h.threads τ).pc.setLock = none → t'.pc.setLock = none →
      k.SetsHeld := by
    intro τ t' k hth hag hl hold hnew
    exact hh.quiet hth hag hl fun _ _ => inSet_iff_of_none hold hnew
  have hkeep : ∀ {τ : ThreadId} {t' : Thread} {k : Host},
      k.threads = Function.update h.threads τ t' → k.agents = h.agents →
      k.setLock = h.setLock → t'.set = (h.threads τ).set →
      t'.pc.setLock = (h.threads τ).pc.setLock → k.SetsHeld := by
    intro τ t' k hth hag hl hset hpc
    exact hh.quiet hth hag hl fun _ _ => inSet_iff_of_eq hpc hset
  cases hs with
  | call hpc =>
      refine hnone rfl rfl rfl (by rw [hpc]; rfl) ?_
      dsimp only
      split
      · split <;> rfl
      · rfl
  | beginEvict hpc | noEvict hpc | evictInvalid hpc | evictClaim hpc | evictDiscard hpc
  | evictLock hpc | lineLock hpc | checked hpc | unchecked hpc | copy hpc | copied hpc
  | lineUnlock hpc | request hpc | spun hpc | restored hpc | evictSpun hpc =>
      exact hnone rfl rfl rfl (by rw [hpc]; rfl) rfl
  | evictDrop hpc | evictSend hpc =>
      refine hnone rfl rfl rfl (by rw [hpc]; rfl) ?_
      dsimp only
      split <;> rfl
  | finish hpc =>
      refine hnone rfl rfl rfl (by rw [hpc]; rfl) ?_
      dsimp only
      split <;> rfl
  | bodyEnd hpc =>
      refine hnone rfl rfl rfl (by rw [hpc]; rfl) ?_
      dsimp only
      split
      · rfl
      · exact loop_setLock
  | evictEnd hpc => exact hnone rfl rfl rfl (by rw [hpc]; rfl) loop_setLock
  | reply hpc => exact hnone rfl rfl rfl (by rw [hpc]; rfl) (onReply_setLock (by rw [hpc]; rfl))
  | unstash hpc | evictReply hpc =>
      exact hnone rfl rfl rfl (by rw [hpc]; rfl) onEvictReply_setLock
  | swallow => exact hh
  | findSkip hpc | found hpc | shadowSkip hpc => exact hkeep rfl rfl rfl rfl (by rw [hpc]; rfl)
  | looked hpc => exact hkeep rfl rfl rfl rfl (by rw [hpc]; exact afterLookup_setLock)
  | claim hpc =>
      refine hkeep rfl rfl rfl rfl ?_
      rcases hpc with ⟨hpc, _⟩ | ⟨hpc, _⟩ <;> rw [hpc] <;> rfl
  | casFail hpc =>
      refine hkeep rfl rfl rfl rfl ?_
      rcases hpc with ⟨hpc, ⟨rfl, _⟩ | rfl⟩ | ⟨hpc, rfl⟩ <;> rw [hpc] <;> rfl
  | scan hpc => exact hkeep rfl rfl rfl rfl (by rw [hpc]; exact scanSlot_setLock)
  | insert hpc hi =>
      obtain ⟨new, t', hth, hpc', haddr, hag, hl⟩ := hi.thread
      refine hkeep hth hag hl ?_ (by rw [hpc, hpc']; rfl)
      rw [Thread.set, Thread.tag, haddr]
      rfl
  | lockSet hpc hl =>
      refine hh.threadAt rfl rfl rfl rfl rfl fun r w hheld => ?_
      rw [hpc] at hheld
      exact hheld.rLock hl
  | unlock hpc =>
      refine hh.threadAt rfl rfl rfl rfl rfl fun r w hheld => ?_
      rw [hpc] at hheld
      dsimp only
      rw [pc_setLock]
      exact hheld.rUnlock
  | lockSetW hpc hl =>
      refine hh.threadAt rfl rfl rfl rfl rfl fun r w hheld => ?_
      rw [hpc, hl] at hheld
      exact hheld.wLock.2.2
  | unlockSetW hpc =>
      refine hh.threadAt rfl rfl rfl rfl rfl fun r w hheld => ?_
      rw [hpc] at hheld
      exact hheld.wUnlock
  | take hpc => exact hh.quietAgent rfl rfl rfl (.inl (by rw [hpc]; rfl))
  | agentLock hpc hl =>
      refine hh.agentAt rfl rfl rfl (.inl (by rw [hpc]; rfl)) (.inr rfl) fun r w hheld => ?_
      rw [hpc] at hheld
      simp only [AgentPc.inSet, reduceCtorEq, ind_false, ind_true, Nat.add_zero] at hheld ⊢
      exact hheld.rLock hl
  | agentSkip hpc | agentFound hpc | agentShadowSkip hpc | agentObey hpc =>
      exact hh.quietAgent rfl rfl rfl (.inl (by rw [hpc]; rfl))
  | agentLooked hpc => exact hh.quietAgent rfl rfl rfl (by rw [hpc]; exact afterFind_inSet)
  | agentFault hpc => exact hh.quietAgent rfl rfl rfl (.inr rfl)
  | agentUnlock hpc =>
      refine hh.agentAt rfl rfl rfl (.inr (by rw [hpc]; rfl)) (.inl rfl) fun r w hheld => ?_
      rw [hpc] at hheld
      simp only [AgentPc.inSet, reduceCtorEq, ind_false, ind_true, Nat.add_zero] at hheld ⊢
      exact hheld.rUnlock

theorem setsHeld {apptNum : ℕ} {ds : List Addr} (hr : (host apptNum ds).Reachable h) :
    h.SetsHeld :=
  Host.invariant (fun _ hi => .init hi) (fun _ _ _ _ hh hs => hh.step hs) hr

/-! ## Exclusion -/

section Exclusion

variable {i : SetIndex} {σ : ThreadId}

/-- A writer is alone. -/
theorem SetsHeld.alone (hh : h.SetsHeld) (hτ : (h.threads τ).inSet true i) :
    h.setWriters i = 1 ∧ h.setReaders i = 0 := by
  have hle := h.le_setWriters τ i
  rw [ind_of hτ] at hle
  obtain ⟨hone, hzero, -⟩ := (hh i).alone hle
  exact ⟨hone, hzero⟩

/-- A thread inside a set keeps every writer out. -/
theorem SetsHeld.no_writer {w : Bool} (hh : h.SetsHeld) (hne : σ ≠ τ)
    (hσ : (h.threads σ).inSet w i) : ¬ (h.threads τ).inSet true i := by
  intro hτ
  obtain ⟨hone, hzero⟩ := hh.alone hτ
  cases w with
  | true =>
      have hle : _ ≤ h.setWriters i :=
        pair_le_sum (fun τ => ind ((h.threads τ).inSet true i)) hne
      rw [ind_of hσ, ind_of hτ] at hle
      omega
  | false =>
      have hle := h.le_setReaders σ i
      rw [ind_of hσ] at hle
      omega

/-- So does an agent. -/
theorem SetsHeld.no_writer_agent (hh : h.SetsHeld) (ha : (h.agents a).inSet = some i) :
    ¬ (h.threads τ).inSet true i := by
  intro hτ
  have hle := h.le_setReaders_agent a i
  rw [ind_of ha, (hh.alone hτ).2] at hle
  omega

end Exclusion

end Host

end Ting
