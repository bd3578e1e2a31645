/-
# `Ting.Soft.Buffers` — buffers are conserved

Every buffer that `initLine` allocates is referenced from exactly one place, by a line that is
not `PRESERVED` or by the stack of a thread, as long as `newLine` never takes a buffer from an
empty stack.  It asks for the size of the stack when it fills an empty slot, and not when it
moves a line to the shadow set.
-/
import Ting.Soft.Unique

open Total

namespace Ting

open HostAction (ofThread ofAgent)

/-- Whether the line refers to the buffer. -/
def LineInfo.refs (d : Addr) (l : LineInfo) : ℕ :=
  ind (l.status ≠ .preserved ∧ l.data = d)

theorem LineInfo.refs_congr {d : Addr} {l l' : LineInfo} (hd : l'.data = l.data)
    (hs : l'.status = .preserved ↔ l.status = .preserved) : l'.refs d = l.refs d :=
  ind_congr (by rw [hd, ne_eq, hs])

namespace Host

variable {h h' : Host} {d : Addr}

/-- The number of places that refer to a buffer. -/
def refs (h : Host) (d : Addr) : ℕ :=
  ∑ r, (h.lines r).refs d + ∑ τ, (h.threads τ).stack.count d

/-- `newLine` is about to move a line to the shadow set. -/
def Moves (h : Host) (τ : ThreadId) : Prop :=
  ∃ available s, (h.threads τ).pc = .scan [] false available (some s) ∧
    (available = none ∨ (h.threads τ).stack = []) ∧
      (h.lines ⟨false, (h.threads τ).set, s⟩).status ≠ .invalid

/-- No line is moved by a thread that has no buffer. -/
def Stocked (h : Host) (a : HostAction) : Prop :=
  ∀ τ ptr, a = .insert τ ptr → h.Moves τ → (h.threads τ).stack ≠ []

/-- A line that is about to be dropped has given its buffer away. -/
def Emptied (h : Host) : Prop :=
  ∀ τ w, (h.threads τ).pc = .evictDrop w → (h.lines (h.threads τ).cur).data = 0

/-! ## Buffers of lines -/

/-- A buffer changes hands only where a line is inserted or dropped. -/
theorem Stepped.data {a : HostAction} (hs : Stepped h a h') (hh : h.Owned) (r : LineRef) :
    (h'.lines r).data = (h.lines r).data ∨ h.Loose r ∨
      ∃ τ, a = .thread τ ∧ (h'.lines r).data = 0 := by
  have hsame : ∀ {k : Host} {x : LineRef} {l : LineInfo},
      k.lines = Function.update h.lines x l → l.data = (h.lines x).data →
      (k.lines r).data = (h.lines r).data := by
    intro k x l hk hl
    rw [hk]
    rcases eq_or_ne r x with rfl | hne
    · rw [Function.update_self, hl]
    · rw [Function.update_of_ne hne]
  cases hs with
  | evictClaim | evictDrop | evictLock | lineLock | lineUnlock | evictEnd | claim =>
      exact .inl (hsame rfl rfl)
  | @evictDiscard τ =>
      rcases eq_or_ne r (h.threads τ).cur with rfl | hne
      · refine .inr (.inr ⟨τ, rfl, ?_⟩)
        rw [setThread_lines, setLine_lines, Function.update_self]
      · refine .inl ?_
        rw [setThread_lines, setLine_lines, Function.update_of_ne hne]
  | finish _ hp => exact .inl (hsame rfl (LineInfo.publish_full hp).2.2.2.1)
  | restored _ hl => exact .inl (hsame rfl (LineInfo.restore_full hl).2.2.2.1)
  | agentObey _ _ hl => exact .inl (hsame rfl hl.full.2.2.1)
  | insert hpc hi =>
      rcases hi.lines hh hpc r with hr | ⟨-, hloose⟩
      · exact .inl (by rw [hr])
      · exact .inr (.inl hloose)
  | _ => exact .inl rfl

theorem Emptied.step {a : HostAction} (he : h.Emptied) (hs : Stepped h a h') (hh : h.Owned) :
    h'.Emptied := by
  intro σ w hpc'
  -- a line that was about to be dropped stays empty, and nobody else writes the pointer
  have hold : h'.threads σ = h.threads σ → (h'.lines (h'.threads σ).cur).data = 0 := by
    intro hσ
    rw [hσ] at hpc' ⊢
    have hcur : (h.threads σ).stake.cur = some ((h.threads σ).cur, .ending) := by
      rw [Thread.stake, hpc']
      rfl
    rcases hs.data hh (h.threads σ).cur with hd | hl | ⟨-, -, hd⟩
    · rw [hd]
      exact he σ w hpc'
    · exact absurd hl (hh.not_loose (.inr (.inr ⟨_, hcur⟩)))
    · exact hd
  rcases Classical.em (∀ k, a.thread? = some k → k ≠ σ) with hne | hne
  · exact hold (hs.threads_other hne)
  obtain ⟨τ, ha, rfl⟩ : ∃ τ, a.thread? = some τ ∧ τ = σ := by
    simpa using hne
  -- the thread has come from `evictDiscard`
  have hself : ∀ {k : Host} {t' : Thread}, (k.setThread τ t').threads τ = t' := by
    intro k t'
    rw [setThread_threads, Function.update_self]
  cases hs with
  | evictDiscard =>
      cases ha
      rw [hself, setThread_lines, setLine_lines, Function.update_self]
  | beginEvict | noEvict | evictInvalid | evictClaim | evictLock | lockSet | findSkip | found
  | shadowSkip | claim | lockSetW | unlockSetW | lineLock | checked | unchecked | copy | copied
  | lineUnlock | request | spun | restored | evictSpun =>
      cases ha
      rw [hself] at hpc'
      cases hpc'
  | call =>
      cases ha
      rw [hself] at hpc'
      dsimp only at hpc'
      split at hpc'
      · split at hpc' <;> cases hpc'
      · cases hpc'
  | evictDrop | evictSend | finish =>
      cases ha
      rw [hself] at hpc'
      dsimp only at hpc'
      split at hpc' <;> cases hpc'
  | looked =>
      cases ha
      rw [hself] at hpc'
      rcases afterLookup_cases _ _ _ _ with ⟨_, hk, -⟩ | ⟨_, -, -, hk⟩ <;> cases hk.symm.trans hpc'
  | casFail hpc =>
      cases ha
      rw [hself] at hpc'
      rcases hpc with ⟨_, ⟨rfl, _⟩ | rfl⟩ | ⟨_, rfl⟩ <;> cases hpc'
  | @unlock _ k =>
      cases ha
      rw [hself] at hpc'
      cases k <;> cases hpc'
  | scan =>
      cases ha
      rw [hself] at hpc'
      obtain ⟨_, _, _, hk, -⟩ := scanSlot_cases _ _ _ _ _ _ _
      cases hk.symm.trans hpc'
  | insert hpc hi =>
      cases ha
      obtain ⟨_, t', hth, ht', -⟩ := hi.thread
      rw [hth, Function.update_self, ht'] at hpc'
      cases hpc'
  | reply hpc =>
      cases ha
      rw [hself] at hpc'
      rcases onReply_cases _ _ _ _ _ _ _ with ⟨pc, hk, rfl | rfl⟩ | ⟨hk, -⟩ <;> rw [hk] at hpc'
      · rcases replySwitch_cases _ _ _ _ _ with hr | hr | ⟨_, _, ⟨_, hr⟩ | hr | ⟨_, _, hr⟩⟩ <;>
          cases hr.symm.trans hpc'
      · cases hpc'
      · cases hpc.symm.trans hpc'
  | bodyEnd =>
      cases ha
      rw [hself] at hpc'
      dsimp only at hpc'
      split at hpc'
      · cases hpc'
      · rcases loop_cases with hk | hk <;> cases hk.symm.trans hpc'
  | unstash | evictReply =>
      cases ha
      rw [hself] at hpc'
      obtain ⟨_, hk, rfl | rfl | rfl | rfl⟩ := onEvictReply_cases _ _ _ <;> rw [hk] at hpc' <;>
        cases hpc'
  | evictEnd =>
      cases ha
      rw [hself] at hpc'
      rcases loop_cases with hk | hk <;> cases hk.symm.trans hpc'
  | swallow => exact hold rfl
  | take | agentLock | agentSkip | agentFound | agentShadowSkip | agentLooked | agentObey
  | agentFault | agentUnlock => cases ha

theorem emptied {apptNum : ℕ} {ds : List Addr} (hr : (host apptNum ds).Reachable h) : h.Emptied :=
  Host.invariant (fun h hi τ w hpc => by rw [hi.pc τ] at hpc; cases hpc)
    (fun _ _ _ hr he hs => he.step hs (owned hr)) hr

/-! ## Counting -/

theorem refs_lines {x : LineRef} {l : LineInfo} (hlines : h'.lines = Function.update h.lines x l)
    (d : Addr) : ∑ r, (h'.lines r).refs d + (h.lines x).refs d
      = ∑ r, (h.lines r).refs d + l.refs d := by
  rw [hlines]
  exact sum_update (fun _ l => LineInfo.refs d l) h.lines x l

theorem refs_stacks {τ : ThreadId} {t' : Thread}
    (hth : h'.threads = Function.update h.threads τ t') (d : Addr) :
    ∑ σ, (h'.threads σ).stack.count d + (h.threads τ).stack.count d
      = ∑ σ, (h.threads σ).stack.count d + t'.stack.count d := by
  rw [hth]
  exact sum_update (fun _ t => (Thread.stack t).count d) h.threads τ t'

/-- A step that writes one line and one stack moves references from one to the other. -/
theorem refs_balance {τ : ThreadId} {t' : Thread} {x : LineRef} {l : LineInfo}
    (hth : h'.threads = Function.update h.threads τ t')
    (hlines : h'.lines = Function.update h.lines x l)
    (hbal : l.refs d + t'.stack.count d = (h.lines x).refs d + (h.threads τ).stack.count d) :
    h'.refs d = h.refs d := by
  have hl := refs_lines hlines d
  have hs := refs_stacks hth d
  unfold refs
  omega

/-- The same for a step that writes two lines. -/
theorem refs_balance₂ {τ : ThreadId} {t' : Thread} {x₁ x₂ : LineRef} {l₁ l₂ : LineInfo}
    (hth : h'.threads = Function.update h.threads τ t') (hne : x₂ ≠ x₁)
    (hlines : h'.lines = Function.update (Function.update h.lines x₁ l₁) x₂ l₂)
    (hbal : l₁.refs d + l₂.refs d + t'.stack.count d
      = (h.lines x₁).refs d + (h.lines x₂).refs d + (h.threads τ).stack.count d) :
    h'.refs d = h.refs d := by
  have h₁ : ∑ r, ((h.setLine x₁ l₁).lines r).refs d + (h.lines x₁).refs d
      = ∑ r, (h.lines r).refs d + l₁.refs d := refs_lines rfl d
  have h₂ : ∑ r, (h'.lines r).refs d + ((h.setLine x₁ l₁).lines x₂).refs d
      = ∑ r, ((h.setLine x₁ l₁).lines r).refs d + l₂.refs d := refs_lines hlines d
  rw [setLine_lines, Function.update_of_ne hne] at h₂
  rw [setLine_lines] at h₁
  have hs := refs_stacks hth d
  unfold refs
  omega

/-- A step that leaves the stack of its thread alone, and the lines as full or empty as they
were. -/
theorem refs_eq {τ : ThreadId} {t' : Thread} (hth : h'.threads = Function.update h.threads τ t')
    (hlines : h'.lines = h.lines) (hstack : t'.stack = (h.threads τ).stack) :
    h'.refs d = h.refs d :=
  refs_balance (x := ⟨false, 0, 0⟩) hth (hlines.trans (Function.update_eq_self _ _).symm)
    (by rw [hstack])

theorem refs_eq_line {τ : ThreadId} {t' : Thread} {x : LineRef} {l : LineInfo}
    (hth : h'.threads = Function.update h.threads τ t')
    (hlines : h'.lines = Function.update h.lines x l) (hstack : t'.stack = (h.threads τ).stack)
    (hd : l.data = (h.lines x).data) (hs : l.status = .preserved ↔ h.status x = .preserved) :
    h'.refs d = h.refs d :=
  refs_balance hth hlines (by rw [hstack, LineInfo.refs_congr hd hs])

theorem refs_step {a : HostAction} (hs : Stepped h a h') (hh : h.Owned) (he : h.Emptied)
    (hok : h.Stocked a) (hd : d ≠ 0) : h'.refs d = h.refs d := by
  cases hs with
  | call | beginEvict | noEvict | evictInvalid | evictSend | lockSet | findSkip | found
  | shadowSkip | looked | casFail | unlock | lockSetW | scan | unlockSetW | checked | unchecked
  | copy | copied | request | spun | bodyEnd | evictSpun | unstash | evictReply =>
      exact refs_eq rfl rfl rfl
  | evictLock | lineLock | lineUnlock | evictEnd =>
      exact refs_eq_line rfl rfl rfl rfl .rfl
  | @reply τ r kind hasData granted m hpc =>
      refine refs_eq rfl rfl ?_
      rcases onReply_cases (h.threads τ) r kind hasData
        granted (h.lines (h.threads τ).cur).tag m with
        ⟨_, hk, _⟩ | ⟨hk, _⟩ <;> rw [hk]
  | swallow | take | agentLock | agentSkip | agentFound | agentShadowSkip | agentLooked
  | agentFault | agentUnlock => rfl
  | @evictClaim τ w hpc =>
      have hcur : (h.threads τ).stake.cur = some ((h.threads τ).cur, .trying) := by
        rw [Thread.stake, hpc]
        rfl
      have hne := (hh.fits τ).not_preserved (.inr (.inr ⟨_, hcur⟩))
      exact refs_eq_line rfl rfl rfl rfl (iff_of_false (by rintro ⟨⟩) hne)
  | @claim τ x k hpc hf hst =>
      refine refs_eq_line rfl rfl rfl rfl (iff_of_false ?_ ?_)
      · rw [LineInfo.setFlagAndStatus]
        rcases k.toStatus_eq with hk | hk <;> rw [hk] <;> rintro ⟨⟩
      · rw [status, hst]
        split <;> rintro ⟨⟩
  | finish _ hp =>
      obtain ⟨hst, hst', -, hd', -⟩ := LineInfo.publish_full hp
      exact refs_eq_line rfl rfl rfl hd' (iff_of_false hst' hst)
  | restored _ hl =>
      obtain ⟨hst, hst', -, hd', -⟩ := LineInfo.restore_full hl
      exact refs_eq_line rfl rfl rfl hd' (iff_of_false hst' hst)
  | agentObey _ _ hl =>
      exact refs_eq_line (Function.update_eq_self (0 : ThreadId) h.threads).symm rfl rfl
        hl.full.2.2.1 hl.full.1
  | @evictDiscard τ w hpc =>
      have hcur : (h.threads τ).stake.cur = some ((h.threads τ).cur, .ending) := by
        rw [Thread.stake, hpc]
        rfl
      have hne : (h.lines (h.threads τ).cur).status ≠ .preserved :=
        (hh.fits τ).not_preserved (.inr (.inr ⟨_, hcur⟩))
      refine refs_balance rfl rfl ?_
      simp only [LineInfo.refs, hne, ne_eq, not_false_eq_true, true_and, hd.symm, if_false,
        List.count_cons, ind, beq_iff_eq]
      omega
  | @evictDrop τ w hpc =>
      refine refs_balance rfl rfl ?_
      simp only [LineInfo.refs, he τ w hpc, hd.symm, and_false, LineInfo.setFlagAndStatus]
  | @insert τ ptr exist available eviction _ hpc hi =>
      have hslots : (h.threads τ).stake.slots = (available, eviction) := by
        rw [Thread.stake, hpc]
        rfl
      cases hi with
      | none => exact refs_eq rfl rfl rfl
      | reused => exact refs_eq_line rfl rfl rfl rfl .rfl
      | @fresh s e es _ hs hstack =>
          have hp : (h.lines ⟨false, (h.threads τ).set, s⟩).status = .preserved :=
            (hh.fits τ).available s (by rw [hslots]; exact hs)
          refine refs_balance rfl rfl ?_
          simp only [LineInfo.refs, hp, filled, hstack, List.count_cons, ind, beq_iff_eq, ne_eq,
            not_true_eq_false, false_and, if_false, reduceCtorEq, not_false_eq_true, true_and]
          omega
      | @moved s he' hs ha hst =>
          obtain ⟨hstable, hp⟩ := (hh.fits τ).eviction s (by rw [hslots]; exact hs)
          have hne := hok τ ptr rfl ⟨available, s, by rw [hpc, he', hs], ha, hst⟩
          obtain ⟨e, es, hstack⟩ := List.exists_cons_of_ne_nil hne
          have hfull : (h.lines ⟨false, (h.threads τ).set, s⟩).status ≠ .preserved := fun he => by
            rw [status, he] at hstable
            cases hstable
          have hempty : (h.lines ⟨true, (h.threads τ).set, s⟩).status = .preserved := hp
          refine refs_balance₂ rfl (fun he => by cases he) rfl ?_
          simp only [LineInfo.refs, hempty, hfull, filled, hstack, List.head?_cons,
            Option.getD_some, List.tail_cons, List.count_cons, ind, beq_iff_eq, ne_eq,
            not_true_eq_false, false_and, if_false, reduceCtorEq, not_false_eq_true, true_and]
          omega

/-! ## Runs -/

theorem deal_count (apptNum : ℕ) (d : Addr) (ds : List Addr) : ∀ (k : ℕ)
    (dealt : ThreadId → List Addr), ∑ τ, (deal apptNum k ds dealt τ).count d
      = ∑ τ, (dealt τ).count d + ds.count d := by
  induction ds with
  | nil =>
      intro k dealt
      simp only [deal, List.count_nil, Nat.add_zero]
  | cons e ds ih =>
      intro k dealt
      rw [deal]
      generalize Fin.ofNat 24 k = τ
      have hsum := sum_update (fun _ l => List.count d l) dealt τ (e :: dealt τ)
      have hrest := ih ((k + 1) % apptNum) (Function.update dealt τ (e :: dealt τ))
      simp only [List.count_cons] at hsum hrest ⊢
      omega

theorem refs_init {apptNum : ℕ} {ds : List Addr} (hi : Init apptNum ds h) (d : Addr) :
    h.refs d = ds.count d := by
  have hlines : ∑ r, (h.lines r).refs d = 0 := Finset.sum_eq_zero fun r _ =>
    ind_of_not fun hr => hr.1 (hi.status r)
  have hdeal := deal_count apptNum d ds 0 (fun _ => [])
  simp only [List.count_nil, Finset.sum_const_zero, Nat.zero_add] at hdeal
  rw [refs, hlines, Nat.zero_add, ← hdeal]
  exact Finset.sum_congr rfl fun τ _ => by rw [hi.stack τ]

/-- A buffer is referenced as often as it was allocated, in every run that takes none from an
empty stack. -/
theorem refs_count {apptNum : ℕ} {ds : List Addr}
    (hr : (host apptNum ds).ReachableWhen Stocked h) (hd : d ≠ 0) : h.refs d = ds.count d :=
  Host.invariantWhen (P := fun h => h.refs d = ds.count d) (fun _ hi => refs_init hi d)
    (fun _ _ _ hr hok hp hs => (refs_step hs (owned hr) (emptied hr) hok hd).trans hp) hr

/-- Every buffer that `initLine` has allocated is referenced from exactly one place. -/
theorem buffers_conserved {apptNum : ℕ} {ds : List Addr} (hnodup : ds.Nodup) (hnull : 0 ∉ ds)
    (hr : (host apptNum ds).ReachableWhen Stocked h) : ∀ d ∈ ds, h.refs d = 1 := by
  intro d hd
  rw [refs_count hr fun he => hnull (he ▸ hd)]
  exact List.count_eq_one_of_mem hnodup hd

/-- The guard as a check that a run can evaluate. -/
def hasBuffer (h : Host) : HostAction → Bool
  | .insert τ _ => (h.threads τ).stack ≠ []
  | _ => true

theorem stocked_of_hasBuffer (h : Host) (a : HostAction) (hc : h.hasBuffer a) : h.Stocked a := by
  rintro τ ptr rfl -
  exact of_decide_eq_true hc

/-- A thread with two buffers has put one of them into a line. -/
theorem buffers_conserved_insert : ∃ h : Host, (h.lines ⟨false, 63045, 7⟩).data = 2 ∧
    (h.threads 0).stack = [1] ∧ ∀ d ∈ [(1 : Addr), 2], h.refs d = 1 := by
  obtain ⟨h, hr, hv⟩ := TransitionSystem.exists_reachableWhen (T := host 1 [1, 2])
    (f := fun h => ((h.lines ⟨false, 63045, 7⟩).data, (h.threads 0).stack)) (v := (2, [1]))
    (insertLine 0 ⟨0, 5⟩) stocked_of_hasBuffer (start_init 0 1 [1, 2])
    (by decide +kernel)
  obtain ⟨hd, hs⟩ := Prod.mk.inj hv
  exact ⟨h, hd, hs, buffers_conserved (by decide) (by decide) hr⟩

/-- Two lines that refer to one buffer. -/
theorem two_le_refs {r r' : LineRef} (hne : r ≠ r') (hr : (h.lines r).refs d = 1)
    (hr' : (h.lines r').refs d = 1) : 2 ≤ h.refs d := by
  have hle := pair_le_sum (fun x => (h.lines x).refs d) hne
  rw [hr, hr'] at hle
  exact le_trans hle (Nat.le_add_right _ _)

/-- A thread whose only buffer is in use misses again in the same set: it moves its line to the
shadow set and takes what lies below its empty stack, here the buffer that it has given away. -/
theorem buffers_shared : ¬ ∀ (apptNum : ℕ) (ds : List Addr) (h : Host), ds.Nodup → 0 ∉ ds →
    (host apptNum ds).Reachable h → ∀ d ∈ ds, h.refs d = 1 := by
  intro hall
  obtain ⟨h, hr, hrefs⟩ := TransitionSystem.exists_reachable (T := host 1 [1])
    (f := fun h => ((h.lines ⟨false, 63045, 7⟩).refs 1, (h.lines ⟨true, 63045, 7⟩).refs 1))
    (v := (1, 1))
    (.call 0 false false ⟨0, 5⟩ :: ofThread 0 30 ++ .insert 0 0 :: ofThread 0 23 ++
      .send 0 (.about .initDir ⟨0, 5⟩) ::
      .receive 0 (.about .dir2AppReadMissAckdata ⟨0, 5⟩) :: ofThread 0 7 ++
      .call 0 false false ⟨0, 507⟩ :: ofThread 0 30 ++ [.insert 0 1])
    (start_init 0 1 [1]) (by decide +kernel)
  have hone := hall 1 [1] h (by decide) (by decide) hr 1 (by decide)
  obtain ⟨h₁, h₂⟩ := Prod.mk.inj hrefs
  have htwo := two_le_refs (h := h) (by decide) h₁ h₂
  omega

end Host

end Ting
