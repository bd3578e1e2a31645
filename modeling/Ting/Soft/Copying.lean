/-
# `Ting.Soft.Copying` — what a copy excludes

A thread copies from or to a line under the lock of the line, after it has found that the status
permits it.  The status stays, and with it the tag and the buffer, as long as whoever takes a
line out of `SHARED` or `MODIFIED` finds its lock free.  Only `start_evict` asks for the lock,
and it does so when it has changed the status already; agents, `newLine` and the upgrade of a
shared line do not ask.
-/
import Ting.Soft.LineLock
import Ting.Soft.Owned

namespace Ting

open HostAction (ofThread ofAgent)

namespace Pc

/-- The line that a thread has found, from the end of its lookup to the end of its copy. -/
def hit : Pc → Option LineRef
  | lineLock r _ | lineCheck r _ | copy r | copying r _ => some r
  | _ => none

/-- The line that a thread copies from or to. -/
def copies : Pc → Option LineRef
  | copy r | copying r _ => some r
  | _ => none

theorem locked_of_copies {pc : Pc} {r : LineRef} (h : pc.copies = some r) : pc.locked = some r := by
  cases pc with
  | copy | copying => exact h
  | _ => cases h

theorem hit_of_copies {pc : Pc} {r : LineRef} (h : pc.copies = some r) : pc.hit = some r := by
  cases pc with
  | copy | copying => exact h
  | _ => cases h

end Pc

theorem permits_read {s : CacheStatus} {w : Bool} (h : s.permits w) :
    s = .shared ∨ s = .modified := by
  cases s with
  | shared => exact .inl rfl
  | modified => exact .inr rfl
  | _ => cases h

namespace Host

variable {h h' : Host} {r : LineRef} {σ : ThreadId}

/-! ## Approaching a line -/

/-- The steps that lead a thread to a copy. -/
inductive Approach (h : Host) (t : Thread) (r : LineRef) : Pc → Prop
  | found (hpc : t.pc = .unlock (.line r)) : Approach h t r (.lineLock r true)
  | granted {k : RawMessageType} {succ : Bool} (hpc : t.pc = .finish r k succ) :
      Approach h t r (.lineLock r false)
  | locked {hit : Bool} (hpc : t.pc = .lineLock r hit) : Approach h t r (.lineCheck r hit)
  | checked {hit : Bool} (hpc : t.pc = .lineCheck r hit) (hs : (h.status r).permits t.write) :
      Approach h t r (.copy r)
  | copy (hpc : t.pc = .copy r) : Approach h t r (.copying r (h.lines r).data)

theorem loop_hit {t : Thread} : t.loop.hit = none := by
  rcases loop_cases (t := t) with h | h <;> rw [h] <;> rfl

/-- A thread that is at a line was there before, or has come by one of these steps. -/
theorem Stepped.approach {a : HostAction} (hs : Stepped h a h')
    (hr : (h'.threads σ).pc.hit = some r) : h'.threads σ = h.threads σ ∨
      (∀ τ ptr, a ≠ .insert τ ptr) ∧ (h'.threads σ).addr = (h.threads σ).addr ∧
        (h'.threads σ).write = (h.threads σ).write ∧
          Approach h (h.threads σ) r (h'.threads σ).pc := by
  rcases Classical.em (∀ k, a.thread? = some k → k ≠ σ) with hne | hne
  · exact .inl (hs.threads_other hne)
  obtain ⟨τ, ha, rfl⟩ : ∃ τ, a.thread? = some τ ∧ τ = σ := by
    simpa using hne
  have hself : ∀ {k : Host} {t' : Thread}, (k.setThread τ t').threads τ = t' := by
    intro k t'
    rw [setThread_threads, Function.update_self]
  have hup : ∀ {k : Host} {t' : Thread}, (k.setThread τ t').threads τ = t' →
      t'.addr = (h.threads τ).addr → t'.write = (h.threads τ).write →
      Approach h (h.threads τ) r t'.pc → ((k.setThread τ t').threads τ).addr = (h.threads τ).addr ∧
        ((k.setThread τ t').threads τ).write = (h.threads τ).write ∧
          Approach h (h.threads τ) r ((k.setThread τ t').threads τ).pc := by
    intro k t' hk haddr hw hp
    rw [hk]
    exact ⟨haddr, hw, hp⟩
  have hno : ∀ {k : Host} {t' : Thread}, (k.threads τ) = t' → (k.threads τ).pc.hit = some r →
      t'.pc.hit = none → False := by
    rintro k _ rfl hk hn
    rw [hn] at hk
    cases hk
  cases hs with
  | unlock hpc =>
      cases ha
      rename_i k
      cases k with
      | line x =>
          rw [hself] at hr
          cases hr
          exact .inr ⟨nofun, hup hself rfl rfl (.found hpc)⟩
      | _ => exact (hno hself hr rfl).elim
  | finish hpc =>
      cases ha
      rename_i x kind succ succ' l hp
      cases succ' with
      | false => exact (hno hself hr rfl).elim
      | true =>
          rw [hself] at hr
          cases hr
          exact .inr ⟨nofun, hup hself rfl rfl (.granted hpc)⟩
  | lineLock hpc =>
      cases ha
      rw [hself] at hr
      cases hr
      exact .inr ⟨nofun, hup hself rfl rfl (.locked hpc)⟩
  | checked hpc hp =>
      cases ha
      rw [hself] at hr
      cases hr
      exact .inr ⟨nofun, hup hself rfl rfl (.checked hpc hp)⟩
  | copy hpc =>
      cases ha
      rw [hself] at hr
      cases hr
      exact .inr ⟨nofun, hup hself rfl rfl (.copy hpc)⟩
  | beginEvict | noEvict | evictInvalid | evictClaim | evictDiscard | evictLock | lockSet
  | findSkip | found | shadowSkip | claim | lockSetW | unlockSetW | unchecked | copied
  | lineUnlock | request | spun | restored | evictSpun =>
      cases ha
      exact (hno hself hr rfl).elim
  | call =>
      cases ha
      refine (hno hself hr ?_).elim
      dsimp only
      split
      · split <;> rfl
      · rfl
  | evictDrop | evictSend =>
      cases ha
      refine (hno hself hr ?_).elim
      dsimp only
      split <;> rfl
  | looked =>
      cases ha
      refine (hno hself hr ?_).elim
      rcases afterLookup_cases _ _ _ _ with ⟨_, hk, -⟩ | ⟨_, -, -, hk⟩ <;> rw [hk] <;> rfl
  | casFail hpc =>
      cases ha
      rcases hpc with ⟨_, ⟨rfl, _⟩ | rfl⟩ | ⟨_, rfl⟩ <;> exact (hno hself hr rfl).elim
  | scan =>
      cases ha
      refine (hno hself hr ?_).elim
      obtain ⟨_, _, _, hk, -⟩ := scanSlot_cases _ _ _ _ _ _ _
      rw [hk]
      rfl
  | insert hpc hi =>
      cases ha
      obtain ⟨_, t', hth, ht', -⟩ := hi.thread
      exact (hno (by rw [hth, Function.update_self]) hr (by rw [ht']; rfl)).elim
  | reply hpc =>
      cases ha
      refine (hno hself hr ?_).elim
      rcases onReply_cases _ _ _ _ _ _ _ with ⟨pc, hk, rfl | rfl⟩ | ⟨hk, -⟩ <;> rw [hk]
      · rcases replySwitch_cases _ _ _ _ _ with hk | hk | ⟨_, _, ⟨_, hk⟩ | hk | ⟨_, _, hk⟩⟩ <;> rw [hk] <;> rfl
      · rfl
      · rw [hpc]
        rfl
  | bodyEnd =>
      cases ha
      refine (hno hself hr ?_).elim
      dsimp only
      split
      · rfl
      · exact loop_hit
  | unstash | evictReply =>
      cases ha
      refine (hno hself hr ?_).elim
      obtain ⟨_, hk, rfl | rfl | rfl | rfl⟩ := onEvictReply_cases _ _ _ <;> rw [hk] <;> rfl
  | evictEnd =>
      cases ha
      exact (hno hself hr loop_hit).elim
  | swallow => exact .inl rfl
  | take | agentLock | agentSkip | agentFound | agentShadowSkip | agentLooked | agentObey
  | agentFault | agentUnlock => cases ha

/-! ## Revocations -/

/-- Whoever takes a line out of `SHARED` or `MODIFIED` finds its lock free. -/
structure Unlocked (h : Host) (a : HostAction) : Prop where
  agent : ∀ i m r, a = .agent i → h.agents i = .loop m r →
    h.status r = .shared ∨ h.status r = .modified → (h.lines r).lock = 0
  newLine : ∀ τ ptr available s, a = .insert τ ptr →
    (h.threads τ).pc = .scan [] false available (some s) →
    (available = none ∨ (h.threads τ).stack = []) →
    h.status ⟨false, (h.threads τ).set, s⟩ = .shared ∨
      h.status ⟨false, (h.threads τ).set, s⟩ = .modified →
    (h.lines ⟨false, (h.threads τ).set, s⟩).lock = 0
  startEvict : ∀ τ, a = .thread τ → (h.threads τ).pc = .evictTry false →
    h.status (h.threads τ).cur = .shared ∨ h.status (h.threads τ).cur = .modified →
    (h.lines (h.threads τ).cur).lock = 0
  writeLine : ∀ τ r, a = .thread τ → (h.threads τ).pc = .cas r → (h.threads τ).write →
    h.status r = .shared → (h.lines r).lock = 0

/-- A step leaves the status, the tag and the buffer of a line. -/
structure Unrevoked (h h' : Host) (r : LineRef) : Prop where
  status : h'.status r = h.status r
  tag : (h'.lines r).tag = (h.lines r).tag
  data : (h'.lines r).data = (h.lines r).data

theorem Unrevoked.of_eq (hr : h'.lines r = h.lines r) : Unrevoked h h' r :=
  ⟨by rw [Host.status, hr, Host.status], by rw [hr], by rw [hr]⟩

/-- A step that writes another line, or only the lock of this one. -/
theorem Unrevoked.of_update {x : LineRef} {l : LineInfo}
    (hlines : h'.lines = Function.update h.lines x l)
    (hl : r = x → l.status = h.status r ∧ l.tag = (h.lines r).tag ∧ l.data = (h.lines r).data) :
    Unrevoked h h' r := by
  rcases eq_or_ne r x with rfl | hne
  · obtain ⟨hs, ht, hd⟩ := hl rfl
    have hr : h'.lines r = l := by rw [hlines, Function.update_self]
    exact ⟨by rw [Host.status, hr, hs], by rw [hr, ht], by rw [hr, hd]⟩
  · exact .of_eq (by rw [hlines, Function.update_of_ne hne])

/-- An insertion overwrites empty slots, an invalid line, or a line that it moves. -/
theorem Unrevoked.of_inserted {τ : ThreadId} {ptr : Addr} {exist : Bool}
    {available eviction : Option Slot} (hi : Inserted h τ ptr exist available eviction h')
    (hh : h.Owned) (hpc : (h.threads τ).pc = .scan [] exist available eviction)
    (hr : h.status r = .shared ∨ h.status r = .modified) (hlock : (h.lines r).lock ≠ 0)
    (hok : h.Unlocked (.insert τ ptr)) : Unrevoked h h' r := by
  have hslots : (h.threads τ).stake.slots = (available, eviction) := by
    rw [Thread.stake, hpc]
    rfl
  have hne : ∀ {x : LineRef}, h.status x = .preserved ∨ h.status x = .invalid → r ≠ x := by
    rintro x hx rfl
    rcases hx with hx | hx <;> rw [hx] at hr <;> rcases hr with hr | hr <;> cases hr
  cases hi with
  | none => exact .of_eq rfl
  | @fresh s _ _ _ hs =>
      exact .of_update rfl fun he =>
        absurd he (hne (.inl ((hh.fits τ).available s (by rw [hslots]; exact hs))))
  | reused _ _ _ hst => exact .of_update rfl fun he => absurd he (hne (.inr hst))
  | @moved s he hs ha _ =>
      subst he hs
      have hshadow := hne (.inl ((hh.fits τ).eviction s (by rw [hslots])).2)
      rcases eq_or_ne r ⟨false, (h.threads τ).set, s⟩ with rfl | hset
      · exact absurd (hok.newLine τ ptr available s rfl hpc ha hr) hlock
      · exact .of_eq (by
          rw [setThread_lines, setLine_lines, Function.update_of_ne hset, setLine_lines,
            Function.update_of_ne hshadow])

/-- A line whose lock somebody holds, and not to evict it, is not revoked. -/
theorem Stepped.unrevoked {a : HostAction} (hs : Stepped h a h') (hh : h.Owned)
    (hok : h.Unlocked a) (hr : h.status r = .shared ∨ h.status r = .modified)
    (hlock : (h.lines r).lock ≠ 0)
    (hevict : ∀ τ, (h.threads τ).pc.locksEvict (h.threads τ).waitCur → (h.threads τ).cur ≠ r) :
    Unrevoked h h' r := by
  have hending : ∀ {τ : ThreadId}, (h.threads τ).stake.cur = some ((h.threads τ).cur, .ending) →
      r ≠ (h.threads τ).cur := by
    rintro τ hcur rfl
    have := ((hh.fits τ).cur _ _ hcur).2
    rcases hr with hr | hr <;> rw [hr] at this <;> cases this
  cases hs with
  | evictLock | lineLock | lineUnlock | evictEnd =>
      refine .of_update rfl ?_
      rintro rfl
      exact ⟨rfl, rfl, rfl⟩
  | @evictClaim τ w hpc =>
      refine .of_update rfl ?_
      rintro rfl
      cases w with
      | false => exact absurd (hok.startEvict τ rfl hpc hr) hlock
      | true => exact absurd rfl (hevict τ (by rw [hpc]; rfl))
  | evictDiscard hpc =>
      exact .of_update rfl fun he => absurd he (hending (by rw [Thread.stake, hpc]; rfl))
  | evictDrop hpc =>
      exact .of_update rfl fun he => absurd he (hending (by rw [Thread.stake, hpc]; rfl))
  | @claim τ x k hpc hf hst =>
      refine .of_update rfl ?_
      rintro rfl
      rcases hpc with ⟨hpc, ⟨rfl, _⟩ | ⟨rfl, hw⟩⟩ | ⟨hpc, rfl⟩
      · rcases hr with hr | hr <;> cases hst.symm.trans hr
      · exact absurd (hok.writeLine τ r rfl hpc hw hst) hlock
      · rcases hr with hr | hr <;> cases hst.symm.trans hr
  | @finish τ x kind succ succ' l hpc hp =>
      refine .of_update rfl ?_
      rintro rfl
      have hst := (LineInfo.publish_eq hp).1
      rcases kind.toStatus_eq with hk | hk <;> rcases hr with hr | hr <;>
        cases hk.symm.trans (hst.symm.trans hr)
  | restored hpc hl =>
      refine .of_update rfl ?_
      rintro rfl
      have hst := (LineInfo.restore_eq hl).1
      rcases hr with hr | hr <;> rw [show (h.lines _).status = _ from hr] at hst <;> cases hst
  | @agentObey i m x l hpc =>
      refine .of_update rfl ?_
      rintro rfl
      exact absurd (hok.agent i m r rfl hpc hr) hlock
  | insert hpc hi => exact .of_inserted hi hh hpc hr hlock hok
  | _ => exact .of_eq rfl

/-! ## Copies -/

/-- A thread that copies has a status that permits it, and the buffer that the line has. -/
structure Copying (h : Host) : Prop where
  permits : ∀ τ r, (h.threads τ).pc.copies = some r → (h.status r).permits (h.threads τ).write
  data : ∀ τ r d, (h.threads τ).pc = .copying r d → (h.lines r).data = d

/-- Nobody revokes a line from which or to which a thread copies. -/
theorem Copying.unrevoked {a : HostAction} (hc : h.Copying) (hs : Stepped h a h')
    (hl : h.LinesHeld) (hh : h.Owned) (hok : h.Unlocked a)
    (hr : (h.threads σ).pc.copies = some r) : Unrevoked h h' r := by
  have hlocked := Pc.locked_of_copies hr
  exact hs.unrevoked hh hok (permits_read (hc.permits σ r hr)) (hl.locked hlocked)
    fun τ hτ => hl.not_evicting hlocked hτ

theorem Copying.step {a : HostAction} (hc : h.Copying) (hs : Stepped h a h') (hl : h.LinesHeld)
    (hh : h.Owned) (hok : h.Unlocked a) : h'.Copying where
  permits τ r hr := by
    rcases hs.approach (Pc.hit_of_copies hr) with he | ⟨-, -, hw, happ⟩
    · rw [he] at hr ⊢
      rw [(hc.unrevoked hs hl hh hok hr).status]
      exact hc.permits τ r hr
    rw [hw]
    generalize (h'.threads τ).pc = pc' at hr happ
    cases happ with
    | found | granted | locked => cases hr
    | checked hpc hp =>
        have hlocked : (h.threads τ).pc.locked = some r := by rw [hpc]; rfl
        rwa [(hs.unrevoked hh hok (permits_read hp) (hl.locked hlocked)
          fun σ hσ => hl.not_evicting hlocked hσ).status]
    | copy hpc =>
        have hcopies : (h.threads τ).pc.copies = some r := by rw [hpc]; rfl
        rw [(hc.unrevoked hs hl hh hok hcopies).status]
        exact hc.permits τ r hcopies
  data τ r d hpc' := by
    rcases hs.approach (r := r) (by rw [hpc']; rfl) with he | ⟨-, -, -, happ⟩
    · rw [he] at hpc'
      have hcopies : (h.threads τ).pc.copies = some r := by rw [hpc']; rfl
      rw [(hc.unrevoked hs hl hh hok hcopies).data]
      exact hc.data τ r d hpc'
    rw [hpc'] at happ
    cases happ with
    | copy hpc =>
        have hcopies : (h.threads τ).pc.copies = some r := by rw [hpc]; rfl
        exact (hc.unrevoked hs hl hh hok hcopies).data

theorem Copying.init {apptNum : ℕ} {ds : List Addr} (hi : Init apptNum ds h) : h.Copying where
  permits τ r hp := by
    rw [hi.pc τ] at hp
    cases hp
  data τ r d hp := by
    rw [hi.pc τ] at hp
    cases hp

theorem copying {apptNum : ℕ} {ds : List Addr} (hr : (host apptNum ds).ReachableWhen Unlocked h) :
    h.Copying :=
  Host.invariantWhen (fun _ hi => .init hi)
    (fun _ _ _ hr hok hc hs => hc.step hs (linesHeld hr) (owned hr) hok) hr

/-- The guard as a check that a run can evaluate: nothing is done that could revoke a line. -/
def quiet (h : Host) : HostAction → Bool
  | .agent _ => false
  | .insert τ _ => match (h.threads τ).pc with
      | .scan _ _ _ (some _) => false
      | _ => true
  | .thread τ => match (h.threads τ).pc with
      | .evictTry _ => false
      | .cas _ => !(h.threads τ).write
      | _ => true
  | _ => true

end Host

end Ting
