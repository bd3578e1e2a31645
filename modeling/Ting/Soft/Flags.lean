/-
# `Ting.Soft.Flags` — no invalidation is lost

The flag of a line remembers an invalidation that finds the line in transition.  It is set only
then, it stays until the transition ends, and the step that ends it finds it: the line is
`INVALID` or `PRESERVED` afterwards, and the access that waited has not succeeded.
-/
import Ting.Soft.Owned

namespace Ting

open HostAction (ofThread ofAgent)

/-- The agent's step leaves a line that rests invalid, and flags one in transition. -/
theorem LineInfo.Obeyed.invalidates {t : RawMessageType} {l l' : LineInfo} (h : Obeyed t l l')
    (ht : t ≠ .dir2AgentReadMissDirty) :
    (l.status = .shared ∨ l.status = .modified → l' = l.setFlagAndStatus false .invalid) ∧
      (l.status.isTransient → l.flag = false ∧ l' = l.setFlagAndStatus true l.status) := by
  cases h with
  | invalidated hf hs | taken hf hs =>
      exact ⟨fun _ => rfl, fun htr => by rw [hs] at htr; cases htr⟩
  | flagged hf hs =>
      refine ⟨fun hst => ?_, fun _ => ⟨hf, rfl⟩⟩
      rcases hst with hst | hst <;> rw [hst] at hs <;> cases hs
  | downgraded _ _ ht' | downgradedEvict _ _ ht' => exact absurd ht' ht
  | gone hs =>
      refine ⟨fun hst => ?_, fun htr => ?_⟩
      · rcases hst with hst | hst <;> rw [hs] at hst <;> cases hst
      · rw [hs] at htr
        cases htr

namespace Host

variable {h h' : Host} {r : LineRef}

/-- A line is flagged only while its status is `TO_SHARED`, `TO_MODIFIED` or `TO_PRESERVED`. -/
def FlagsWell (h : Host) : Prop :=
  ∀ r, (h.lines r).flag → (h.lines r).status.isTransient

theorem FlagsWell.setLine {l : LineInfo} (hf : h.FlagsWell) (hl : l.flag → l.status.isTransient) :
    (h.setLine r l).FlagsWell := by
  intro x hx
  rw [setLine_lines] at hx ⊢
  rcases eq_or_ne x r with rfl | hne
  · rw [Function.update_self] at hx ⊢
    exact hl hx
  · rw [Function.update_of_ne hne] at hx ⊢
    exact hf x hx

theorem FlagsWell.step {a : HostAction} (hf : h.FlagsWell) (hs : Stepped h a h') :
    h'.FlagsWell := by
  -- a line that is unflagged, or keeps flag and status
  have hoff : ∀ {r : LineRef} {l : LineInfo}, l.flag = false → (h.setLine r l).FlagsWell := by
    intro r l hl
    exact hf.setLine fun hx => by rw [hl] at hx; cases hx
  have hsame : ∀ {r : LineRef} {l : LineInfo}, l.flag = (h.lines r).flag →
      l.status = (h.lines r).status → (h.setLine r l).FlagsWell := by
    intro r l hfl hst
    exact hf.setLine fun hx => by rw [hst]; exact hf r (hfl ▸ hx)
  cases hs with
  | evictClaim => exact hf.setLine fun _ => rfl
  | evictDiscard | evictLock | lineLock | lineUnlock | evictEnd => exact hsame rfl rfl
  | evictDrop | claim => exact hoff rfl
  | finish _ hp =>
      obtain ⟨-, ⟨-, rfl, -⟩ | ⟨-, -, rfl⟩⟩ := LineInfo.publish_eq hp <;> exact hoff rfl
  | restored _ hl =>
      obtain ⟨-, -, ⟨-, rfl⟩ | ⟨-, rfl⟩⟩ := LineInfo.restore_eq hl <;> exact hoff rfl
  | insert hpc hi =>
      cases hi with
      | none => exact hf
      | fresh => exact hoff rfl
      | reused => exact hsame rfl rfl
      | moved => exact (hoff rfl).setLine fun hx => by cases hx
  | agentObey _ _ hl =>
      cases hl with
      | invalidated | taken | downgraded | downgradedEvict => exact hoff rfl
      | flagged _ hs => exact hf.setLine fun _ => hs
      | gone => exact hsame rfl rfl
  | _ => exact hf

theorem flagsWell {apptNum : ℕ} {ds : List Addr} (hr : (host apptNum ds).Reachable h) :
    h.FlagsWell :=
  Host.invariant (fun h hi r hf => by rw [hi.flag r] at hf; cases hf)
    (fun _ _ _ _ hf hs => hf.step hs) hr

/-! ## The end of the transition -/

/-- The step by which thread `τ` ends the transition of the flagged line `r`: a miss or an
upgrade whose access has not succeeded, an eviction that is taken back, or one that is over. -/
inductive Consumed (r : LineRef) (h : Host) (τ : ThreadId) (h' : Host) : Prop
  | finish {kind : RawMessageType} {succ : Bool} (hpc : (h.threads τ).pc = .finish r kind succ)
      (hpc' : (h'.threads τ).pc = .bodyEnd) (hsucc : (h'.threads τ).succ = false)
      (hf : (h'.lines r).flag = false) (hs : (h'.lines r).status = .invalid)
  | restored (hpc : (h.threads τ).pc = .evictRestore) (hcur : (h.threads τ).cur = r)
      (hf : (h'.lines r).flag = false) (hs : (h'.lines r).status = .invalid)
  | dropped {w : Bool} (hpc : (h.threads τ).pc = .evictDrop w) (hcur : (h.threads τ).cur = r)
      (hf : (h'.lines r).flag = false) (hs : (h'.lines r).status = .preserved)

/-- A flag stays, with the status, or it is consumed. -/
theorem Stepped.flag {a : HostAction} (hs : Stepped h a h') (hf : h.FlagsWell) (hh : h.Owned)
    (hr : (h.lines r).flag) :
    ((h'.lines r).flag ∧ (h'.lines r).status = (h.lines r).status) ∨
      ∃ τ, a = .thread τ ∧ Consumed r h τ h' := by
  have htr := hf r hr
  -- a step that writes another line, or keeps flag and status
  have hother : ∀ {x : LineRef} {l : LineInfo},
      (x = r → l.flag = (h.lines x).flag ∧ l.status = (h.lines x).status) →
      ((h.setLine x l).lines r).flag ∧
        ((h.setLine x l).lines r).status = (h.lines r).status := by
    intro x l hx
    rw [setLine_lines]
    rcases eq_or_ne x r with rfl | hne
    · rw [Function.update_self, (hx rfl).1]
      exact ⟨hr, (hx rfl).2⟩
    · rw [Function.update_of_ne hne.symm]
      exact ⟨hr, rfl⟩
  cases hs with
  | evictDiscard | evictLock | lineLock | lineUnlock | evictEnd =>
      exact .inl (hother fun _ => ⟨rfl, rfl⟩)
  | @evictClaim τ w hpc hs =>
      refine .inl (hother ?_)
      rintro rfl
      have hfit := ((hh.fits τ).cur (h.threads τ).cur .trying (by rw [Thread.stake, hpc]; rfl)).2
      change CacheStatus.isStable (h.lines (h.threads τ).cur).status = true at hfit
      cases hst : (h.lines (h.threads τ).cur).status <;> rw [hst] at htr hfit <;> cases htr <;>
        cases hfit
  | @evictDrop τ w hpc =>
      rcases eq_or_ne (h.threads τ).cur r with hc | hne
      · refine .inr ⟨τ, rfl, .dropped hpc hc ?_ ?_⟩ <;> subst hc <;>
          rw [setThread_lines, setLine_lines, Function.update_self] <;> rfl
      · exact .inl (hother fun he => absurd he hne)
  | claim _ hfalse =>
      refine .inl (hother ?_)
      rintro rfl
      rw [hr] at hfalse
      cases hfalse
  | @finish τ x kind succ succ' l hpc hp =>
      obtain ⟨-, ⟨hx, hl, hsucc⟩ | ⟨hx, -, -⟩⟩ := LineInfo.publish_eq hp
      · rcases eq_or_ne x r with rfl | hne
        · refine .inr ⟨τ, rfl, .finish hpc ?_ ?_ ?_ ?_⟩
          · rw [setThread_threads, Function.update_self, hsucc]
            rfl
          · rw [setThread_threads, Function.update_self, hsucc]
          · rw [setThread_lines, setLine_lines, Function.update_self, hl]
            rfl
          · rw [setThread_lines, setLine_lines, Function.update_self, hl]
            rfl
        · exact .inl (hother fun he => absurd he hne)
      · refine .inl (hother ?_)
        rintro rfl
        rw [hr] at hx
        cases hx
  | @restored τ l hpc hl =>
      obtain ⟨-, -, ⟨hx, rfl⟩ | ⟨hx, -⟩⟩ := LineInfo.restore_eq hl
      · rcases eq_or_ne (h.threads τ).cur r with hc | hne
        · refine .inr ⟨τ, rfl, .restored hpc hc ?_ ?_⟩ <;> subst hc <;>
            rw [setThread_lines, setLine_lines, Function.update_self] <;> rfl
        · exact .inl (hother fun he => absurd he hne)
      · refine .inl (hother ?_)
        rintro rfl
        rw [hr] at hx
        cases hx
  | insert hpc hi =>
      rcases hi.lines hh hpc r with he | ⟨-, hp | ⟨-, hst⟩⟩
      · rw [he]
        exact .inl ⟨hr, rfl⟩
      · rw [show (h.lines r).status = _ from hp] at htr
        cases htr
      · change (h.lines r).status.isStable = true at hst
        generalize (h.lines r).status = st at hst htr
        cases st <;> cases hst <;> cases htr
  | agentObey _ _ hl =>
      cases hl with
      | invalidated hx | taken hx | flagged hx | downgraded hx | downgradedEvict hx =>
          refine .inl (hother ?_)
          rintro rfl
          rw [hr] at hx
          cases hx
      | gone => exact .inl (hother fun _ => ⟨rfl, rfl⟩)
  | _ => exact .inl ⟨hr, rfl⟩

/-! ## Runs -/

/-- Runs along which the line `r` stays flagged, in the status that it has. -/
inductive StaysFlagged (r : LineRef) (h : Host) : Host → Prop
  | refl (hf : (h.lines r).flag) : StaysFlagged r h h
  | step {k k' : Host} {a : HostAction} (hk : StaysFlagged r h k) (hs : k.step a = some k')
      (hf : (k'.lines r).flag) (hst : (k'.lines r).status = (k.lines r).status) :
      StaysFlagged r h k'

/-- Along every run a flag stays until the end of the transition consumes it. -/
theorem flag_consumed {apptNum : ℕ} {ds : List Addr} {r : LineRef} {h₀ : Host}
    (as : List HostAction) : ∀ {k h' : Host}, (host apptNum ds).Reachable k →
      StaysFlagged r h₀ k → (k.lines r).flag → (host apptNum ds).run as k = some h' →
      StaysFlagged r h₀ h' ∨ ∃ τ k k' as', StaysFlagged r h₀ k ∧
        k.step (.thread τ) = some k' ∧ Consumed r k τ k' ∧
          (host apptNum ds).run as' k' = some h' := by
  induction as with
  | nil =>
      intro k h' _ hk _ hrun
      cases hrun
      exact .inl hk
  | cons a as ih =>
      intro k h' hr hk hf hrun
      obtain ⟨k', hs, hrest⟩ := Option.bind_eq_some_iff.mp hrun
      rcases (Stepped.of_step hs).flag (flagsWell hr) (owned hr) hf with
        ⟨hf', hst⟩ | ⟨τ, rfl, hc⟩
      · exact ih (.step hr trivial hs) (.step hk hs hf' hst) hf' hrest
      · exact .inr ⟨τ, k, k', as, hk, hs, hc, hrest⟩

/-- No invalidation is lost.  The flag is up only in a transition; the step with which an agent
carries out an invalidation leaves a line that was `SHARED` or `MODIFIED` in `INVALID`, and puts
the flag of a line in transition up, which was down; and that flag stays up until the step that
ends the transition takes it down. -/
theorem invalidation_not_lost {apptNum : ℕ} {ds : List Addr} {h : Host}
    (hr : (host apptNum ds).Reachable h) (r : LineRef) :
    ((h.lines r).flag → (h.lines r).status.isTransient) ∧
      (∀ a m h', h.agents a = .loop m r → m.mtype.isOrder → m.mtype ≠ .dir2AgentReadMissDirty →
        h.step (.agent a) = some h' →
          ((h.lines r).status = .shared ∨ (h.lines r).status = .modified →
            (h'.lines r).status = .invalid ∧ (h'.lines r).flag = false) ∧
          ((h.lines r).status.isTransient → (h.lines r).flag = false ∧ (h'.lines r).flag ∧
            (h'.lines r).status = (h.lines r).status)) ∧
      ((h.lines r).flag → ∀ as h', (host apptNum ds).run as h = some h' →
        StaysFlagged r h h' ∨ ∃ τ k k' as', StaysFlagged r h k ∧ k.step (.thread τ) = some k' ∧
          Consumed r k τ k' ∧ (host apptNum ds).run as' k' = some h') := by
  refine ⟨flagsWell hr r, fun a m h' ha ho ht hs => ?_, fun hf as h' hrun =>
    flag_consumed as hr (.refl hf) hf hrun⟩
  have hobey : ∃ l, LineInfo.Obeyed m.mtype (h.lines r) l ∧ h'.lines r = l := by
    have hstep := Stepped.of_step hs
    cases hstep with
    | agentObey hpc _ hl =>
        rw [ha] at hpc
        cases hpc
        exact ⟨_, hl, Function.update_self ..⟩
    | agentFault hpc hno =>
        rw [ha] at hpc
        cases hpc
        rw [ho] at hno
        cases hno
    | agentLock hpc | agentSkip hpc | agentFound hpc | agentShadowSkip hpc | agentLooked hpc
    | agentUnlock hpc =>
        rw [ha] at hpc
        cases hpc
  obtain ⟨l, hl, he⟩ := hobey
  obtain ⟨hrest, htrans⟩ := hl.invalidates ht
  rw [he]
  refine ⟨fun hst => ?_, fun htr => ?_⟩
  · rw [hrest hst]
    exact ⟨rfl, rfl⟩
  · obtain ⟨hf, rfl⟩ := htrans htr
    exact ⟨hf, rfl, rfl⟩

/-- An agent flags the line of a miss that waits for its answer. -/
theorem invalidation_not_lost_flagged : ∃ h : Host, (host 24 [1]).Reachable h ∧
    (h.lines ⟨false, 63045, 7⟩).flag ∧ (h.lines ⟨false, 63045, 7⟩).status.isTransient := by
  obtain ⟨h, hr, hf⟩ := TransitionSystem.exists_reachable (T := host 24 [1])
    (f := fun h => (h.lines ⟨false, 63045, 7⟩).flag) (v := true)
    (.call 0 false false ⟨0, 5⟩ :: ofThread 0 30 ++ .insert 0 0 :: ofThread 0 23 ++
      .send 0 (.about .initDir ⟨0, 5⟩) ::
      .take 0 (.about .dir2AgentWriteMissShared ⟨0, 5⟩) :: ofAgent 0 19)
    (start_init 0 24 [1]) (by decide +kernel)
  exact ⟨h, hr, hf, (invalidation_not_lost hr ⟨false, 63045, 7⟩).1 hf⟩

end Host

end Ting
