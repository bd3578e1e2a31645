/-
# `Ting.Soft.Evictions` — one eviction at a time

A thread has one place for the eviction that it waits for.  It keeps it until `wait_evict` has
dealt with the answer, as long as `newLine` moves no line to the shadow set while an eviction is
outstanding: the next round of the loop begins the new one without waiting for the old.
-/
import Ting.Soft.Buffers
import Ting.Soft.LineLock

namespace Ting

open HostAction (ofThread)

/-- The positions of `start_evict` and `wait_evict` in which the answer is not awaited. -/
def Pc.evicts : Pc → Bool
  | evictTry _ | evictDiscard _ | evictDrop _ | evictLock _ | evictSend _ | evictRestore
  | evictSpin | evictEnd => true
  | _ => false

theorem Pc.Outside.evicts {pc : Pc} (h : pc.Outside) : pc.evicts = false := by
  cases pc with
  | evictTry w | evictDiscard w | evictDrop w | evictLock w =>
      exact absurd (h.evict (!w)) (by cases w <;> exact nofun)
  | evictSend | evictRestore | evictSpin | evictEnd => exact absurd (h.evict false) nofun
  | _ => rfl

namespace Host

variable {h h' : Host}

/-- No line is moved by a thread whose eviction is outstanding. -/
def Finished (h : Host) (a : HostAction) : Prop :=
  ∀ τ ptr, a = .insert τ ptr → h.Moves τ → (h.threads τ).waitCur = false

/-- A thread that is to begin an eviction has none outstanding. -/
def OneEviction (h : Host) : Prop :=
  ∀ τ, (h.threads τ).startNext → (h.threads τ).waitCur = false

theorem OneEviction.step {a : HostAction} (ho : h.OneEviction) (hs : Stepped h a h')
    (hok : h.Finished a) : h'.OneEviction := by
  have hup : ∀ {τ : ThreadId} {t' : Thread}, h'.threads = Function.update h.threads τ t' →
      (t'.startNext → t'.waitCur = false) → h'.OneEviction := by
    intro τ t' hth ht
    rw [OneEviction, hth]
    exact (Function.forall_update_iff h.threads
      (p := fun _ t => Thread.startNext t = true → t.waitCur = false)).mpr ⟨ht, fun σ _ => ho σ⟩
  have hkeep : ∀ {τ : ThreadId} {t' : Thread}, h'.threads = Function.update h.threads τ t' →
      t'.startNext = (h.threads τ).startNext → t'.waitCur = (h.threads τ).waitCur →
      h'.OneEviction := by
    intro τ t' hth hn hw
    exact hup hth fun h => by rw [hw]; exact ho τ (hn ▸ h)
  cases hs with
  | beginEvict | restored => exact hup rfl nofun
  | evictInvalid | evictEnd => exact hup rfl fun _ => rfl
  | @reply τ r kind hasData granted m =>
      rcases onReply_cases (h.threads τ) r kind hasData
        granted (h.lines (h.threads τ).cur).tag m with
        ⟨_, hk, _⟩ | ⟨hk, _⟩ <;> exact hkeep rfl (by rw [hk]) (by rw [hk])
  | @insert τ ptr exist available eviction _ hpc hi =>
      cases hi with
      | @moved s he hs ha hst =>
          exact hup rfl fun _ => hok τ ptr rfl ⟨available, s, by rw [hpc, he, hs], ha, hst⟩
      | _ => exact hkeep rfl rfl rfl
  | swallow | take | agentLock | agentSkip | agentFound | agentShadowSkip | agentLooked
  | agentObey | agentFault | agentUnlock => exact ho
  | _ => exact hkeep rfl rfl rfl

theorem oneEviction {apptNum : ℕ} {ds : List Addr}
    (hr : (host apptNum ds).ReachableWhen Finished h) : h.OneEviction :=
  Host.invariantWhen (fun _ hi τ hn => by rw [hi.startNext τ] at hn; cases hn)
    (fun _ _ _ _ hok ho hs => ho.step hs hok) hr

/-- A thread keeps an answer only while its eviction is outstanding. -/
def Stashed (h : Host) : Prop :=
  ∀ τ, (h.threads τ).stash ≠ none → (h.threads τ).waitCur ∧ (h.threads τ).pc.evicts = false

theorem Stashed.step {a : HostAction} (hk : h.Stashed) (hs : Stepped h a h')
    (ho : h.OneEviction) : h'.Stashed := by
  have hup : ∀ {τ : ThreadId} {t' : Thread}, h'.threads = Function.update h.threads τ t' →
      (t'.stash ≠ none → t'.waitCur ∧ t'.pc.evicts = false) → h'.Stashed := by
    intro τ t' hth ht
    rw [Stashed, hth]
    exact (Function.forall_update_iff h.threads (p := fun _ t => Thread.stash t ≠ none →
      t.waitCur ∧ t.pc.evicts = false)).mpr ⟨ht, fun σ _ => hk σ⟩
  have hkeep : ∀ {τ : ThreadId} {t' : Thread}, h'.threads = Function.update h.threads τ t' →
      t'.stash = (h.threads τ).stash → t'.waitCur = (h.threads τ).waitCur →
      t'.pc.evicts = false → h'.Stashed := by
    intro τ t' hth hst hw hpc
    refine hup hth fun hne => ⟨?_, hpc⟩
    rw [hw]
    exact (hk τ (hst ▸ hne)).1
  have hnone : ∀ {τ : ThreadId} {t' : Thread} {pc : Pc}, (h.threads τ).pc = pc →
      pc.evicts = true → h'.threads = Function.update h.threads τ t' →
      t'.stash = (h.threads τ).stash → h'.Stashed := by
    rintro τ t' _ rfl hpc hth hst
    refine hup hth fun hne => ?_
    have := (hk τ (hst ▸ hne)).2
    cases hpc.symm.trans this
  cases hs with
  | @beginEvict τ hpc hn =>
      refine hup rfl fun hne => ?_
      have := (hk τ hne).1
      cases (ho τ hn).symm.trans this
  | evictInvalid hpc | evictClaim hpc | evictDiscard hpc | evictDrop hpc | evictLock hpc
  | evictSend hpc | restored hpc | evictSpun hpc | evictEnd hpc => exact hnone hpc rfl rfl rfl
  | call =>
      refine hkeep rfl rfl rfl ?_
      dsimp only
      split
      · split <;> rfl
      · rfl
  | looked => exact hkeep rfl rfl rfl afterLookup_outside.evicts
  | casFail hpc =>
      rcases hpc with ⟨_, ⟨rfl, _⟩ | rfl⟩ | ⟨_, rfl⟩ <;> exact hkeep rfl rfl rfl rfl
  | unlock => exact hkeep rfl rfl rfl pc_outside.evicts
  | scan => exact hkeep rfl rfl rfl scanSlot_outside.evicts
  | insert hpc hi => cases hi <;> exact hkeep rfl rfl rfl rfl
  | finish =>
      refine hkeep rfl rfl rfl ?_
      dsimp only
      split <;> rfl
  | bodyEnd =>
      refine hkeep rfl rfl rfl ?_
      dsimp only
      split
      · rfl
      · exact loop_outside.evicts
  | @reply τ r kind hasData granted m hpc =>
      rcases onReply_cases (h.threads τ) r kind hasData
        granted (h.lines (h.threads τ).cur).tag m with
        ⟨pc, he, rfl | rfl⟩ | ⟨he, hw⟩
      · exact hkeep rfl (by rw [he]) (by rw [he]) (by rw [he]; exact replySwitch_outside.evicts)
      · exact hkeep rfl (by rw [he]) (by rw [he]) (by rw [he]; rfl)
      · refine hup rfl fun _ => ?_
        rw [he, hpc]
        exact ⟨hw, rfl⟩
  | unstash =>
      obtain ⟨_, he, -⟩ := onEvictReply_cases _ _ _
      exact hup rfl fun hne => absurd (by rw [he]) hne
  | evictReply _ hm =>
      obtain ⟨_, he, -⟩ := onEvictReply_cases _ _ _
      exact hup rfl fun hne => absurd (by rw [he]; exact hm) hne
  | swallow | take | agentLock | agentSkip | agentFound | agentShadowSkip | agentLooked
  | agentObey | agentFault | agentUnlock => exact hk
  | _ => exact hkeep rfl rfl rfl rfl

theorem stashed {apptNum : ℕ} {ds : List Addr}
    (hr : (host apptNum ds).ReachableWhen Finished h) : h.Stashed := by
  have hboth : h.OneEviction ∧ h.Stashed := by
    refine Host.invariantWhen (P := fun h => h.OneEviction ∧ h.Stashed) (fun h hi => ⟨?_, ?_⟩)
      (fun h a h' _ hok hp hs => ⟨hp.1.step hs hok, hp.2.step hs hp.1⟩) hr
    · intro τ hn
      rw [hi.startNext τ] at hn
      cases hn
    · intro τ hne
      exact absurd (hi.stash τ) hne
  exact hboth.2

/-- The line that a thread evicts is not exchanged for another one while it waits for it. -/
theorem OneEviction.cur {a : HostAction} (ho : h.OneEviction) (hs : Stepped h a h') {τ : ThreadId}
    (hw : (h.threads τ).waitCur) : (h'.threads τ).cur = (h.threads τ).cur := by
  have hup : ∀ {σ : ThreadId} {t' : Thread}, h'.threads = Function.update h.threads σ t' →
      (σ = τ → t'.cur = (h.threads σ).cur) → (h'.threads τ).cur = (h.threads τ).cur := by
    intro σ t' hth hc
    rw [hth]
    rcases eq_or_ne τ σ with rfl | hne
    · rw [Function.update_self, hc rfl]
    · rw [Function.update_of_ne hne]
  cases hs with
  | @beginEvict σ hpc hn =>
      refine hup rfl ?_
      rintro rfl
      rw [ho σ hn] at hw
      cases hw
  | restored => exact hup rfl fun _ => rfl
  | @reply σ r kind hasData granted m =>
      rcases onReply_cases (h.threads σ) r kind hasData
        granted (h.lines (h.threads σ).cur).tag m with
        ⟨_, hk, _⟩ | ⟨hk, _⟩ <;> exact hup rfl fun _ => by rw [hk]
  | insert hpc hi => cases hi <;> exact hup rfl fun _ => rfl
  | swallow | take | agentLock | agentSkip | agentFound | agentShadowSkip | agentLooked
  | agentObey | agentFault | agentUnlock => rfl
  | _ => exact hup rfl fun _ => rfl

/-- Whenever `start_evict` turns to an eviction, the one before is over and its answer consumed;
and while a thread waits for an eviction, it keeps the line. -/
theorem evictions_one_at_a_time {apptNum : ℕ} {ds : List Addr}
    (hr : (host apptNum ds).ReachableWhen Finished h) :
    (∀ τ, (h.threads τ).pc = .startEvict → (h.threads τ).startNext →
      (h.threads τ).waitCur = false ∧ (h.threads τ).stash = none) ∧
    ∀ a h' τ, h.step a = some h' → (h.threads τ).waitCur →
      (h'.threads τ).cur = (h.threads τ).cur := by
  refine ⟨fun τ _ hn => ?_, fun _ _ _ hs hw => (oneEviction hr).cur (.of_step hs) hw⟩
  have hw := oneEviction hr τ hn
  refine ⟨hw, Classical.not_not.mp fun hne => ?_⟩
  cases hw.symm.trans (stashed hr τ hne).1

/-- Thread 1 reads two blocks of a set, other threads insert lines for six more, and thread 0
moves the line of block 5 to the shadow set to have room for block 542497. -/
def moveLine : List HostAction :=
  insertLine 1 ⟨0, 5⟩ ++ missLine 1 ⟨0, 5⟩ 8 ++ insertLine 1 ⟨0, 507⟩ ++ missLine 1 ⟨0, 507⟩ 7 ++
    insertLine 2 ⟨0, 271896⟩ ++ insertLine 3 ⟨0, 272360⟩ ++ insertLine 4 ⟨0, 273518⟩ ++
    insertLine 5 ⟨0, 274322⟩ ++ insertLine 6 ⟨0, 488351⟩ ++ insertLine 7 ⟨0, 488545⟩ ++
    insertLine 0 ⟨0, 542497⟩ ++ ofThread 0 1

/-- The guard as a check that a run can evaluate. -/
def noEviction (h : Host) : HostAction → Bool
  | .insert τ _ => !(h.threads τ).waitCur
  | _ => true

theorem finished_of_noEviction (h : Host) (a : HostAction) (hc : h.noEviction a) :
    h.Finished a := by
  rintro τ ptr rfl -
  exact (Bool.not_eq_true' _).mp hc

/-- A thread that begins its first eviction. -/
theorem evictions_one_at_a_time_move : ∃ h : Host, (h.threads 0).pc = .startEvict ∧
    (h.threads 0).startNext ∧ (h.threads 0).waitCur = false ∧ (h.threads 0).stash = none := by
  obtain ⟨h, hr, hv⟩ := TransitionSystem.exists_reachableWhen
    (T := host 8 [1, 2, 3, 4, 5, 6, 7, 8, 9, 10, 11, 12, 13, 14, 15, 16])
    (f := fun h => ((h.threads 0).pc, (h.threads 0).startNext)) (v := (.startEvict, true))
    moveLine finished_of_noEviction
    (start_init 0 8 [1, 2, 3, 4, 5, 6, 7, 8, 9, 10, 11, 12, 13, 14, 15, 16]) (by decide +kernel)
  obtain ⟨hpc, hn⟩ := Prod.mk.inj hv
  exact ⟨h, hpc, hn, (evictions_one_at_a_time hr).1 0 hpc hn⟩

/-- Thread 0 begins to evict the line; meanwhile thread 1 has read the block in its place, so
thread 0 has a hit and returns.  Its next miss moves the line of block 507. -/
def forgetEviction : List HostAction :=
  moveLine ++ .call 1 false false ⟨0, 542497⟩ :: missLine 1 ⟨0, 542497⟩ 7 ++
    ofThread 0 3 ++ .send 0 (.about .initDir ⟨0, 5⟩) :: ofThread 0 26 ++
    insertLine 0 ⟨0, 542943⟩ ++ ofThread 0 1

theorem eviction_forgotten : ¬ ∀ (apptNum : ℕ) (ds : List Addr) (h : Host),
    (host apptNum ds).Reachable h → ∀ τ, (h.threads τ).pc = .startEvict →
      (h.threads τ).startNext → (h.threads τ).waitCur = false := by
  intro hall
  obtain ⟨h, hr, hv⟩ := TransitionSystem.exists_reachable
    (T := host 8 [1, 2, 3, 4, 5, 6, 7, 8, 9, 10, 11, 12, 13, 14, 15, 16])
    (f := fun h => ((h.threads 0).pc, (h.threads 0).startNext, (h.threads 0).waitCur))
    (v := (.startEvict, true, true)) forgetEviction
    (start_init 0 8 [1, 2, 3, 4, 5, 6, 7, 8, 9, 10, 11, 12, 13, 14, 15, 16]) (by decide +kernel)
  obtain ⟨hpc, hv⟩ := Prod.mk.inj hv
  obtain ⟨hn, hw⟩ := Prod.mk.inj hv
  cases (hall _ _ h hr 0 hpc hn).symm.trans hw

end Host

end Ting
