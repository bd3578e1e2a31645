/-
# `Ting.Soft.Attended` — who a transient line belongs to

A transient line waits for its thread: a miss or an upgrade is under way, or an eviction.  A thread
may lose its line, either when it turns to the next eviction before the last one has ended or when
it gets into a state that it never leaves (`Pc.broken`).  Otherwise every transient line belongs to
some thread.
-/
import Ting.Soft.Evictions
import Ting.Soft.Unique

namespace Ting

/-- The states of a thread after an assertion has failed, or in a default branch that drops every
message. -/
def Pc.broken : Pc → Bool
  | swallow | fault | unlock .fail => true
  | _ => false

/-- No order makes a line transient. -/
theorem LineInfo.Obeyed.transient {t : RawMessageType} {l l' : LineInfo} (h : Obeyed t l l')
    (hl : l'.status.isTransient) : l.status.isTransient := by
  cases h with
  | flagged _ hs => exact hs
  | gone => exact hl
  | downgradedEvict _ hs => rw [hs]; rfl
  | _ => cases hl

namespace Host

variable {h h' : Host} {τ : ThreadId} {t' : Thread} {r : LineRef}

/-- Every transient line belongs to a thread. -/
def Attended (h : Host) : Prop :=
  ∀ r, (h.status r).isTransient → ∃ τ, (h.threads τ).stake.Owns r

/-- A thread that is about to evict a line owns it, but the line is stable. -/
theorem Owned.busy (hh : h.Owned) (hr : (h.status r).isTransient)
    (ho : (h.threads τ).stake.Owns r) : (∃ s, (h.threads τ).stake.claim = some (r, s)) ∨
      ∃ p, p ≠ .trying ∧ (h.threads τ).stake.cur = some (r, p) := by
  have hclass : ∀ s : CacheStatus, s.isTransient = true → s.isStable = false := by decide
  rcases ho with hc | hn | ⟨p, hp⟩
  · exact .inl hc
  · have := ((hh.fits τ).next r hn).2
    rw [hclass _ hr] at this
    cases this
  · refine .inr ⟨p, ?_, hp⟩
    rintro rfl
    have : (h.status r).isStable := ((hh.fits τ).cur r _ hp).2
    rw [hclass _ hr] at this
    cases this

/-- A step of thread `τ`. -/
theorem Attended.thread (ha : h.Attended) (hth : h'.threads = Function.update h.threads τ t')
    (hline : ∀ r, (h'.status r).isTransient → (h.status r).isTransient ∨ t'.stake.Owns r)
    (howns : ∀ r, (h.status r).isTransient → (h'.status r).isTransient →
      (h.threads τ).stake.Owns r → t'.stake.Owns r) : h'.Attended := by
  intro r hr
  have hself : t'.stake.Owns r → ∃ σ, (h'.threads σ).stake.Owns r := fun ho =>
    ⟨τ, by rw [hth, Function.update_self]; exact ho⟩
  rcases hline r hr with hold | ho
  · obtain ⟨σ, hσ⟩ := ha r hold
    rcases eq_or_ne σ τ with rfl | hne
    · exact hself (howns r hold hr hσ)
    · exact ⟨σ, by rw [hth, Function.update_of_ne hne]; exact hσ⟩
  · exact hself ho

/-- A step of thread `τ` that changes the status of line `x` only. -/
theorem Attended.turn {x : LineRef} (ha : h.Attended)
    (hth : h'.threads = Function.update h.threads τ t')
    (hst : ∀ y, y ≠ x → h'.status y = h.status y)
    (hx : (h'.status x).isTransient → t'.stake.Owns x)
    (howns : ∀ r, r ≠ x → (h.status r).isTransient → (h.threads τ).stake.Owns r →
      t'.stake.Owns r) : h'.Attended := by
  refine ha.thread hth (fun r hr => ?_) fun r hr hr' ho => ?_
  · rcases eq_or_ne r x with rfl | hne
    · exact .inr (hx hr)
    · exact .inl (by rwa [← hst r hne])
  · rcases eq_or_ne r x with rfl | hne
    · exact hx hr'
    · exact howns r hne hr ho

/-- A step that leaves the threads. -/
theorem Attended.agent (ha : h.Attended) (hth : h'.threads = h.threads)
    (hst : ∀ r, (h'.status r).isTransient → (h.status r).isTransient) : h'.Attended := by
  intro r hr
  rw [hth]
  exact ha r (hst r hr)

/-- What `newLine` stores makes no line transient. -/
theorem Inserted.transient {ptr : Addr} {exist : Bool} {available eviction : Option Slot}
    (hi : Inserted h τ ptr exist available eviction h') (hh : h.Owned)
    (hpc : (h.threads τ).pc = .scan [] exist available eviction)
    (hr : (h'.status r).isTransient) : h'.status r = h.status r := by
  have hset : ∀ {x : LineRef} {l : LineInfo}, h'.lines = Function.update h.lines x l →
      l.status.isTransient = false → h'.status r = h.status r := by
    intro x l hl hst
    rcases eq_or_ne r x with rfl | hne
    · rw [status, hl, Function.update_self, hst] at hr
      cases hr
    · rw [status, hl, Function.update_of_ne hne, status]
  cases hi with
  | none => rfl
  | fresh => exact hset rfl rfl
  | reused _ _ _ hi => exact hset rfl (by rw [show LineInfo.status _ = _ from hi]; rfl)
  | @moved s _ hs =>
      have hslots : (h.threads τ).stake.slots = (available, eviction) := by
        rw [Thread.stake, hpc]
        rfl
      have hstable := ((hh.fits τ).eviction s (by rw [hslots]; exact hs)).1
      rw [status, setThread_lines, setLine_lines, setLine_lines] at hr ⊢
      rcases eq_or_ne r ⟨false, (h.threads τ).set, s⟩ with rfl | hne
      · rw [Function.update_self] at hr
        cases hr
      rw [Function.update_of_ne hne] at hr ⊢
      rcases eq_or_ne r ⟨true, (h.threads τ).set, s⟩ with rfl | hne'
      · rw [Function.update_self] at hr
        have hr : (h.status ⟨false, (h.threads τ).set, s⟩).isTransient := hr
        have hclass : ∀ s : CacheStatus, s.isTransient = true → s.isStable = false := by decide
        rw [hclass _ hr] at hstable
        cases hstable
      · rw [Function.update_of_ne hne', status]

/-- As long as no thread begins an eviction while it waits for another, and none breaks down,
every step keeps it. -/
theorem Attended.step {a : HostAction} (ha : h.Attended) (ho : h.OneEviction) (hh : h.Owned)
    (hw : h.WaitsWell) (hs : Stepped h a h') (hok : ∀ τ, (h'.threads τ).pc.broken = false) :
    h'.Attended := by
  -- the statuses stay, and so does the stake
  have hkeep : ∀ {τ : ThreadId} {t' : Thread}, h'.threads = Function.update h.threads τ t' →
      h'.status = h.status → (∀ r, (h.threads τ).stake.Owns r → t'.stake.Owns r) →
      h'.Attended := by
    intro τ t' hth hst howns
    exact ha.thread hth (fun r hr => .inl (by rwa [← hst])) fun r _ _ => howns r
  have hstill : ∀ {τ : ThreadId} {t' : Thread}, h'.threads = Function.update h.threads τ t' →
      h'.status = h.status → t'.stake = (h.threads τ).stake → h'.Attended := by
    intro τ t' hth hst hk
    exact hkeep hth hst fun r hr => by rw [hk]; exact hr
  -- the thread has looked at a message for its eviction
  have hanswer : ∀ {τ : ThreadId} {x : Option CtrlMsg} {tag : BitVec 64} {m : CtrlMsg},
      h'.threads = Function.update h.threads τ
        (({ h.threads τ with stash := x } : Thread).onEvictReply tag m) →
      h'.status = h.status → (h.threads τ).pc = .waitEvict → h'.Attended := by
    intro τ x tag m hth hst hpc
    obtain ⟨pc, ht, hp⟩ := onEvictReply_cases { h.threads τ with stash := x } tag m
    rw [ht] at hth
    have hbroken := hok τ
    rw [hth, Function.update_self] at hbroken
    refine hkeep hth hst fun r hr => ?_
    rw [Thread.stake, hpc] at hr
    rcases hr with ⟨s, hs⟩ | hn | ⟨p, hp'⟩
    · cases hs
    · exact .inr (.inl hn)
    · cases hp'
      rcases hp with rfl | rfl | rfl | rfl
      · exact .inr (.inr ⟨.ending, rfl⟩)
      · exact .inr (.inr ⟨.waiting, rfl⟩)
      · exact .inr (.inr ⟨.waiting, rfl⟩)
      · cases hbroken
  -- the stake changes at the eviction only
  have hcur : ∀ {τ : ThreadId} {t' : Thread} {p : EvictPhase},
      h'.threads = Function.update h.threads τ t' →
      (∀ y, y ≠ (h.threads τ).cur → h'.status y = h.status y) →
      (h.threads τ).stake.claim = none → t'.stake.cur = some ((h.threads τ).cur, p) →
      (∀ r p, (h.threads τ).stake.cur = some (r, p) → r = (h.threads τ).cur) → h'.Attended := by
    intro τ t' p hth hst hclaim hcur hold
    refine ha.turn hth hst (fun _ => .inr (.inr ⟨p, hcur⟩)) fun r hne hr ho' => ?_
    rcases hh.busy hr ho' with ⟨s, hs⟩ | ⟨p', -, hp'⟩
    · rw [hclaim] at hs
      cases hs
    · exact (hne (hold r p' hp')).elim
  cases hs with
  | noEvict hpc | lockSet hpc | findSkip hpc | found hpc | shadowSkip hpc | lockSetW hpc
  | unlockSetW hpc | checked hpc | unchecked hpc | copy hpc | copied hpc | request hpc
  | spun hpc =>
      exact hstill rfl rfl (by rw [Thread.stake, Thread.stake, hpc]; rfl)
  | evictDiscard hpc | evictLock hpc | lineLock hpc | lineUnlock hpc =>
      exact hstill rfl (status_setLine rfl) (by rw [Thread.stake, Thread.stake, hpc]; rfl)
  | @call τ drain write addr hpc =>
      refine hkeep rfl rfl fun r hr => ?_
      rw [Thread.stake, hpc] at hr
      rcases hr with ⟨s, hs⟩ | hn | ⟨p, hp⟩
      · cases hs
      · exact .inr (.inl hn)
      · refine .inr (.inr ⟨p, ?_⟩)
        rw [← hp, Thread.stake]
        dsimp only
        split
        · split
          next hwait => simp only [Pc.phase, hwait, if_true]
          next => rfl
        · rfl
  | @beginEvict τ hpc hn =>
      refine hkeep rfl rfl fun r hr => ?_
      rw [Thread.stake, hpc, hn, ho τ hn] at hr
      rcases hr with ⟨s, hs⟩ | hn' | ⟨p, hp⟩
      · cases hs
      · cases hn'
        exact .inr (.inr ⟨.trying, rfl⟩)
      · cases hp
  | @evictInvalid τ w hpc hs =>
      exact hcur (p := .ending) rfl (fun _ _ => rfl) (by rw [Thread.stake, hpc]; rfl) rfl
        fun r p hp => by rw [Thread.stake, hpc] at hp; cases hp; rfl
  | @evictClaim τ w hpc hs =>
      exact hcur (p := .waiting) rfl (fun y hne => status_setLine_of_ne hne)
        (by rw [Thread.stake, hpc]; rfl) rfl
        fun r p hp => by rw [Thread.stake, hpc] at hp; cases hp; rfl
  | @evictDrop τ w hpc =>
      refine ha.turn (x := (h.threads τ).cur) rfl (fun y hne => status_setLine_of_ne hne)
        (fun hr => ?_) fun r hne _ hr => ?_
      · rw [show ∀ (k : Host) t, (k.setThread τ t).status = k.status from fun _ _ => rfl,
          status_setLine_self] at hr
        cases hr
      · rw [Thread.stake, hpc] at hr
        rcases hr with ⟨s, hs⟩ | hn | ⟨p, hp⟩
        · cases hs
        · exact .inr (.inl hn)
        · cases hp
          exact (hne rfl).elim
  | @evictSend τ w _ hpc =>
      have hwait := hw τ true (by rw [hpc]; rfl)
      refine hstill rfl rfl ?_
      rw [Thread.stake, Thread.stake, hpc]
      cases w with
      | true => rfl
      | false => simp [hwait, Pc.phase, Pc.claim, Pc.target, Pc.slots]
  | @looked τ line shadow todo hpc hf =>
      refine hkeep rfl rfl fun r hr => ?_
      rw [Thread.stake, hpc] at hr
      rcases hr with ⟨s, hs⟩ | hn | ⟨p, hp⟩
      · cases hs
      · exact .inr (.inl hn)
      · refine .inr (.inr ⟨p, ?_⟩)
        rw [← hp, Thread.stake]
        rcases afterLookup_cases h (h.threads τ) line shadow with ⟨k, hk, -⟩ | ⟨s, -, -, hk⟩ <;>
          dsimp only <;> rw [hk] <;> rfl
  | @claim τ r k hpc hf hs =>
      have hold : (h.threads τ).stake.claim = none ∧ (Thread.stake { h.threads τ with
          pc := .unlock (.request r k) }).cur = (h.threads τ).stake.cur := by
        rcases hpc with ⟨hpc, -⟩ | ⟨hpc, -⟩ <;> rw [Thread.stake, Thread.stake, hpc] <;> exact ⟨rfl, rfl⟩
      refine ha.turn (x := r) rfl (fun y hne => status_setLine_of_ne hne)
        (fun _ => .inl ⟨k.toStatus, rfl⟩) fun r hne _ hr => ?_
      rcases hr with ⟨s, hs⟩ | hn | ⟨p, hp⟩
      · rw [hold.1] at hs
        cases hs
      · exact .inr (.inl hn)
      · exact .inr (.inr ⟨p, hold.2.trans hp⟩)
  | @casFail τ r pc hpc =>
      refine hkeep rfl rfl fun r hr => ?_
      rcases hpc with ⟨hpc, ⟨rfl, _⟩ | rfl⟩ | ⟨hpc, rfl⟩ <;> rw [Thread.stake, hpc] at hr <;> exact hr
  | @unlock τ k hpc =>
      refine hstill rfl rfl ?_
      rw [Thread.stake, Thread.stake, hpc]
      cases k <;> rfl
  | @scan τ s todo exist available eviction hpc =>
      refine hkeep rfl rfl fun r hr => ?_
      obtain ⟨exist', available', eviction', hpc', -⟩ := scanSlot_cases h (h.threads τ) s todo exist
        available eviction
      rw [Thread.stake, hpc] at hr
      rw [hpc']
      exact hr
  | @insert τ ptr exist available eviction _ hpc hi =>
      have hsame := fun r => hi.transient (r := r) hh hpc
      have hown : ∀ {t' : Thread}, h'.threads = Function.update h.threads τ t' →
          t'.cur = (h.threads τ).cur → t'.waitCur = (h.threads τ).waitCur →
          (∃ new, t'.pc = .unlockSetW new) → h'.Attended := by
        rintro t' hth hcur' hwait' ⟨new, hpc'⟩
        refine ha.thread hth (fun r hr => .inl (by rwa [← hsame r hr])) fun r hr _ hown => ?_
        rcases hh.busy hr hown with ⟨s, hs⟩ | ⟨p, -, hp⟩
        · rw [Thread.stake, hpc] at hs
          cases hs
        · refine .inr (.inr ⟨p, ?_⟩)
          rw [← hp, Thread.stake, Thread.stake, hpc, hpc', hcur', hwait']
          rfl
      cases hi <;> exact hown rfl rfl rfl ⟨_, rfl⟩
  | @reply τ r kind hasData granted m hpc =>
      rcases onReply_cases (h.threads τ) r kind hasData granted (h.lines (h.threads τ).cur).tag m with
        ⟨pc, ht, hp⟩ | ⟨ht, -⟩
      · have hbroken := hok τ
        rw [setThread_threads, Function.update_self, ht] at hbroken
        refine hstill rfl rfl ?_
        rw [ht, Thread.stake, Thread.stake, hpc]
        rcases hp with rfl | rfl
        · rcases replySwitch_cases r kind hasData granted m.mtype with
            hr | hr | ⟨k, hk, ⟨_, hr⟩ | hr | ⟨_, _, hr⟩⟩
          · rw [hr] at hbroken
            cases hbroken
          · rw [hr] at hbroken
            cases hbroken
          all_goals
            simp only [hr, Pc.claim, hk]
            rfl
        · cases hbroken
      · exact hstill rfl rfl (by rw [ht]; rfl)
  | @finish τ r kind succ succ' l hpc hp =>
      refine ha.turn (x := r) rfl (fun y hne => status_setLine_of_ne hne) (fun hr => ?_)
        fun x hne _ hx => ?_
      · rw [show ∀ (k : Host) t, (k.setThread τ t).status = k.status from fun _ _ => rfl,
          status_setLine_self] at hr
        obtain ⟨-, ⟨-, rfl, -⟩ | ⟨-, -, rfl⟩⟩ := LineInfo.publish_eq hp
        · cases hr
        · revert hr
          dsimp only [LineInfo.setFlagAndStatus]
          cases kind <;> cases succ <;> rintro ⟨⟩
      · rw [Thread.stake, hpc] at hx
        rcases hx with ⟨s, hs⟩ | hn | ⟨p, hp'⟩
        · cases hs
          exact (hne rfl).elim
        · exact .inr (.inl hn)
        · refine .inr (.inr ⟨p, ?_⟩)
          rw [← hp', Thread.stake]
          cases succ' <;> rfl
  | @bodyEnd τ hpc =>
      refine hstill rfl rfl ?_
      rw [Thread.stake, Thread.stake, hpc]
      dsimp only
      split
      next hc =>
        obtain ⟨-, hwait⟩ := Bool.and_eq_true_iff.mp hc
        simp only [Pc.claim, Pc.target, Pc.phase, Pc.slots, hwait, if_true]
      next => rcases loop_cases (t := h.threads τ) with ht | ht <;> rw [ht] <;> rfl
  | unstash hpc | evictReply hpc => exact hanswer rfl rfl hpc
  | @restored τ l hpc hr =>
      exact hcur (p := .trying) rfl (fun y hne => status_setLine_of_ne hne)
        (by rw [Thread.stake, hpc]; rfl) rfl
        fun r p hp => by rw [Thread.stake, hpc] at hp; cases hp; rfl
  | @evictSpun τ hpc hf =>
      exact hcur (p := .ending) rfl (fun _ _ => rfl) (by rw [Thread.stake, hpc]; rfl) rfl
        fun r p hp => by rw [Thread.stake, hpc] at hp; cases hp; rfl
  | @evictEnd τ hpc =>
      refine hstill rfl (status_setLine rfl) ?_
      rw [Thread.stake, Thread.stake, hpc]
      rcases loop_cases (t := h.threads τ) with ht | ht <;> rw [ht] <;> rfl
  | swallow => exact ha
  | take | agentLock | agentSkip | agentFound | agentShadowSkip | agentLooked | agentFault
  | agentUnlock => exact ha.agent rfl fun _ => id
  | @agentObey a m r l hpc _ hobey =>
      refine ha.agent rfl fun x hx => ?_
      rcases eq_or_ne x r with rfl | hne
      · exact hobey.transient (by rwa [← status_setLine_self (h := h) (r := x) (l := l)])
      · rwa [← status_setLine_of_ne (l := l) hne]

end Host

end Ting
