/-
# `Ting.System.Turns` — what threads do to the copies

Whatever a thread does without the fabric leaves the copies as they are, or turns one of them as
the protocol allows; an insertion turns two, the one whose line goes and the one whose line
comes (`Tracks.turns`).
-/
import Ting.System.Tracks
import Ting.Soft.Flags

namespace Ting

/-- A thread turns one copy. -/
def Copy.Turned (c c' : Block → Copy) : Prop :=
  ∃ b x, Turn (c b) x ∧ c' = Function.update c b x

/-- The eviction that `t'` has before it and the one that it waits for are those of `t`. -/
structure Thread.SameEviction (t t' : Thread) : Prop where
  startNext : t'.startNext = t.startNext
  next : t'.next = t.next
  cur : t'.cur = t.cur
  curType : t'.curType = t.curType
  stash : t'.stash = t.stash
  waitCur : t'.waitCur = t.waitCur

namespace Thread

variable {t t' : Thread} {τ : ThreadId} {addr : LineRef → Block} {c : Block → Copy}

theorem SameEviction.outstanding (hs : t.SameEviction t') {b : Block} {x : Copy}
    (h : t.waitCur → t.Outstanding τ b x) : t'.waitCur → t'.Outstanding τ b x := by
  unfold Outstanding
  rw [hs.waitCur, hs.curType, hs.stash]
  exact h

/-- The thread moves on outside of `start_evict` and `wait_evict`. -/
theorem Follows.quiet (hf : t.Follows τ addr c) (hs : t.SameEviction t') (hpc : t.pc.evicts = false)
    (hsw : t.pc ≠ .swallow) (hfa : t.pc ≠ .fault) (hpc' : t'.pc.evicts = false)
    (hjob : ∀ r k, t'.pc.job = some (r, k) → addr r = t'.addr ∧ k.isEvict = false ∧
      (c t'.addr).ClaimedBy τ k t'.pc.Asks) : t'.Follows τ addr c := by
  refine hf.still hjob (fun hn => ⟨hs.startNext ▸ hn, hs.next⟩) ?_ fun m hm => hs.stash ▸ hm
  rw [hs.cur]
  exact .of_outstanding hpc' (hs.outstanding (hf.cur.outstanding hpc hsw hfa))

/-- `wait_evict` has looked at a message; if it was for the line that it waits for, the message
was the answer. -/
theorem evicts_onEvictReply {b : Block} {x : Copy} {tag : BitVec 64} {m : CtrlMsg}
    (hst : t.stash = none) (hx : m.clineTag = tag →
      x.ClaimedBy τ t.curType.request fun q => q.await = .answered m.mtype) :
    (t.onEvictReply tag m).Evicts τ b x := by
  have hpc : (t.onEvictReply tag m).pc = if m.clineTag = tag then evictSwitch m.mtype else .fault :=
    rfl
  unfold Evicts
  rw [hpc]
  by_cases htag : m.clineTag = tag
  · rw [if_pos htag]
    have hx := hx htag
    revert hx
    generalize m.mtype = u
    intro hx
    have hdone : u.isEvictAck → x = .resting .invalid (some τ) ∨ t.stash = none ∧
        x.ClaimedBy τ t.curType.request fun q => ∃ u, q.await = .answered u ∧
          (u.isEvictAck ∨ u = .dir2AppBitmapCheckFail ∧ q.flag) := by
      intro hack
      obtain ⟨q, hq, hτ, hk, hw⟩ := hx
      exact .inr ⟨hst, q, hq, hτ, hk, u, hw, .inl hack⟩
    cases u with
    | dir2AppEvictSharedAck | dir2AppEvictDirtyAck => exact hdone rfl
    | dir2AppMCheckFail | dir2AppBitmapCheckFail => exact ⟨hst, hx⟩
    | _ => trivial
  · rw [if_neg htag]
    trivial

/-- The same, while a copy that it is not evicting becomes `x`. -/
theorem Follows.quiet_set (hf : t.Follows τ addr c) (hs : t.SameEviction t')
    (hpc : t.pc.evicts = false) (hsw : t.pc ≠ .swallow) (hfa : t.pc ≠ .fault)
    (hpc' : t'.pc.evicts = false) {b : Block} {x : Copy} (hb : ∀ st, c b ≠ .resting st (some τ))
    (hq : ∀ q, c b = .claimed q → q.kind.isEvict = false)
    (hjob : ∀ r k, t'.pc.job = some (r, k) → addr r = t'.addr ∧ k.isEvict = false ∧
      (Function.update c b x t'.addr).ClaimedBy τ k t'.pc.Asks) :
    t'.Follows τ addr (Function.update c b x) := by
  refine hf.set hjob (fun hn => ⟨hs.startNext ▸ hn, hs.next, ?_⟩) ?_ fun m hm => ⟨hs.stash ▸ hm, ?_⟩
  · rintro rfl
    obtain ⟨st, hst⟩ := hf.next (hs.startNext ▸ hn)
    exact hb st hst
  · rw [hs.cur]
    refine .of_outstanding hpc' (hs.outstanding fun hw => ?_)
    have hout := hf.cur.outstanding hpc hsw hfa hw
    have hne : addr t.cur ≠ b := by
      rintro rfl
      obtain ⟨q, hc, -, hk, -⟩ := hout
      have := hq q hc
      rw [hk, t.curType.request_isEvict] at this
      cases this
    rw [Function.update_of_ne hne]
    exact hout
  · intro q hc hk
    rw [hq q hc] at hk
    cases hk

end Thread

theorem loop_job {t : Thread} : t.loop.job = none := by
  rcases loop_cases (t := t) with h | h <;> rw [h] <;> rfl

/-! ## Statuses -/

theorem Rest.evictKind_isEvict (st : Rest) : st.evictKind.isEvict := by
  cases st <;> rfl

theorem RawMessageType.granted_status (k : RawMessageType) : k.grantedStatus = k.granted.status := by
  cases k <;> rfl

theorem RawMessageType.denied_status (k : RawMessageType) : k.deniedStatus = k.denied.status := by
  cases k <;> rfl

namespace Host

variable {h h' : Host} {c : Block → Copy} {τ : ThreadId} {r : LineRef}

/-- The line to be evicted next is not the one that is being evicted. -/
theorem Owned.next_ne (hh : h.Owned) (ha : h.Addressed) (ht : h.Tagged)
    (hn : (h.threads τ).startNext) {p : EvictPhase}
    (hp : (h.threads τ).stake.cur = some ((h.threads τ).cur, p)) :
    h.address (h.threads τ).next ≠ h.address (h.threads τ).cur := by
  intro he
  have hnext : (h.threads τ).stake.next = some (h.threads τ).next := by
    rw [Thread.stake, if_pos hn]
  have hf := hh.fits τ
  have hrr := ha.unique ht (hf.not_preserved (.inr (.inl hnext)))
    (hf.not_preserved (.inr (.inr ⟨p, hp⟩))) he
  exact hf.apart _ _ hp (hrr ▸ hnext)

/-! ## Claims -/

/-- A line that rests in its set keeps a copy that nobody has claimed or parked. -/
theorem Tracks.resting (hk : h.Tracks c) (hr : r.shadow = false) {st : Rest}
    (hs : h.status r = st.status) : c (h.address r) = .resting st none := by
  have hat := hk.line r (by rw [hs]; cases st <;> exact nofun)
  change (h.lines r).status = _ at hs
  revert hat
  generalize c (h.address r) = x
  cases x with
  | absent => exact False.elim
  | resting st' w =>
      rintro ⟨-, hst, hw⟩
      rw [hr] at hw
      cases w with
      | some => cases hw
      | none =>
          rw [hs] at hst
          cases st <;> cases st' <;> first | rfl | cases hst
  | claimed q =>
      rintro ⟨-, hst, -⟩
      rw [hs, Claim.status] at hst
      split at hst
      · split at hst <;> cases st <;> cases hst
      · rcases q.kind.toStatus_eq with hq | hq <;> rw [hq] at hst <;> cases st <;> cases hst

/-- The thread claims the line that it has found. -/
theorem Tracks.claim {k : RawMessageType} (hk : h.Tracks c) (hh : h.Owned) (ht : h.Tagged)
    (ha : h.Addressed)
    (hpc : (h.threads τ).pc = .cas r ∧ (k = .rReadMiss ∧ (h.threads τ).write = false ∨
        k = .rWriteShared ∧ (h.threads τ).write) ∨
      (h.threads τ).pc = .casInvalid r ∧ k = .rWriteMiss)
    (hs : (h.lines r).status = if k = .rWriteShared then .shared else .invalid) :
    ∃ c', Copy.Turned c c' ∧
      ((h.setLine r ((h.lines r).setFlagAndStatus false k.toStatus)).setThread τ
        { h.threads τ with pc := .unlock (.request r k) }).Tracks c' := by
  have htarget : (h.threads τ).pc.target = some r ∧
      (h.threads τ).pc.found (h.threads τ).set = some r ∧ (h.threads τ).pc.evicts = false ∧
      (h.threads τ).pc ≠ .swallow ∧ (h.threads τ).pc ≠ .fault := by
    rcases hpc with ⟨hp, -⟩ | ⟨hp, -⟩ <;> rw [hp] <;> exact ⟨rfl, rfl, rfl, (by rintro ⟨⟩), (by rintro ⟨⟩)⟩
  obtain ⟨htarget, hfound, hev, hsw, hfa⟩ := htarget
  have hshadow : r.shadow = false := ((hh.fits τ).target r htarget).1
  have hkind : k = .rReadMiss ∨ k = .rWriteShared ∨ k = .rWriteMiss := by
    rcases hpc with ⟨-, ⟨rfl, -⟩ | ⟨rfl, -⟩⟩ | ⟨-, rfl⟩
    · exact .inl rfl
    · exact .inr (.inl rfl)
    · exact .inr (.inr rfl)
  obtain ⟨st, hst, hclaim⟩ : ∃ st : Rest, h.status r = st.status ∧
      (st = .invalid ∧ k.isMiss ∨ st = .shared ∧ k = .rWriteShared) := by
    rcases hkind with rfl | rfl | rfl
    · exact ⟨.invalid, hs, .inl ⟨rfl, rfl⟩⟩
    · exact ⟨.shared, hs, .inr ⟨rfl, rfl⟩⟩
    · exact ⟨.invalid, hs, .inl ⟨rfl, rfl⟩⟩
  have hevict : k.isEvict = false := by rcases hkind with rfl | rfl | rfl <;> rfl
  have hcopy := hk.resting hshadow hst
  have hne : h.status r ≠ .preserved := by rw [hst]; cases st <;> rintro ⟨⟩
  have haddr : h.address r = (h.threads τ).addr := by
    have hcar := (ht.found τ r hfound).tag_eq
    rw [ha r hne] at hcar
    exact Block.getTag_inj hcar
  have hf := hk.thread τ
  refine ⟨_, ⟨h.address r, .claimed ⟨τ, k, false, false, .unsent⟩, hcopy ▸ .claim τ hclaim, rfl⟩,
    hk.turn (l := (h.lines r).setFlagAndStatus false k.toStatus) hh ht ha rfl rfl hne rfl
      (fun _ => ⟨rfl, ?_, ?_⟩) (.inl ?_) (fun σ ho => ?_) ?_⟩
  · rw [Claim.status, hevict]
    rfl
  · rw [hshadow, hevict]
  · rw [LineInfo.setFlagAndStatus]
    rcases k.toStatus_eq with hk' | hk' <;> rw [hk'] <;> rintro ⟨⟩
  · rw [hcopy] at ho
    cases ho
  · refine hf.quiet_set ?_ hev hsw hfa ?_ (fun st' he => ?_) (fun q he => ?_) fun r' k' hr' => ?_
    · exact ⟨rfl, rfl, rfl, rfl, rfl, rfl⟩
    · rfl
    · rw [hcopy] at he
      cases he
    · rw [hcopy] at he
      cases he
    · cases hr'
      refine ⟨haddr, hevict, ?_⟩
      rw [← haddr, Function.update_self]
      exact ⟨_, rfl, rfl, rfl, rfl⟩

/-- The end of a miss or an upgrade. -/
theorem Tracks.finish {kind : RawMessageType} {succ succ' : Bool} {l : LineInfo} (hk : h.Tracks c)
    (hh : h.Owned) (ht : h.Tagged) (ha : h.Addressed)
    (hpc : (h.threads τ).pc = .finish r kind succ)
    (hp : (h.lines r).publish kind succ = some (l, succ')) :
    ∃ c', Copy.Turned c c' ∧ ((h.setLine r l).setThread τ { h.threads τ with
      succ := succ', pc := if succ' then .lineLock r false else .bodyEnd }).Tracks c' := by
  have hf := hk.thread τ
  obtain ⟨haddr, hevict, hclaim⟩ := hf.job r kind (by rw [hpc]; rfl)
  obtain ⟨q, hq, hqτ, hqk, hasks⟩ := hclaim
  rw [hpc] at hasks
  obtain ⟨u, hu, hfail, hflag⟩ := hasks
  rw [← haddr] at hq
  obtain ⟨hne, hne', -⟩ := LineInfo.publish_full hp
  have hat := hk.line r hne
  rw [hq] at hat
  obtain ⟨hfl, -, hsh⟩ := hat
  rw [hqk, hevict] at hsh
  -- the copy that the line keeps afterwards
  have hturn : ∃ st, Turn (.claimed q) (.resting (q.settle st) none) ∧
      st.status = if succ then kind.grantedStatus else kind.deniedStatus := by
    cases succ with
    | true => exact ⟨_, .granted (hqk ▸ hevict) hu hfail, by rw [hqk]; exact kind.granted_status.symm⟩
    | false =>
        exact ⟨_, .denied (hqk ▸ hevict) hu hfail hflag, by rw [hqk]; exact kind.denied_status.symm⟩
  obtain ⟨st, hturn, hst⟩ := hturn
  have hpub : l.addr = h.address r ∧ (Copy.resting (q.settle st) none).At r.shadow l := by
    obtain ⟨-, ⟨hx, rfl, -⟩ | ⟨hx, -, rfl⟩⟩ := LineInfo.publish_eq hp
    · have hset : q.settle st = .invalid := if_pos (hfl.symm.trans hx)
      rw [hset]
      exact ⟨rfl, rfl, rfl, hsh⟩
    · have hset : q.settle st = st := if_neg (by rw [← hfl, hx]; exact Bool.false_ne_true)
      rw [hset]
      exact ⟨rfl, rfl, hst.symm, hsh⟩
  refine ⟨_, ⟨h.address r, _, hq ▸ hturn, rfl⟩, hk.turn (l := l) hh ht ha rfl rfl hne hpub.1
    (fun _ => hpub.2) (.inl hne') (fun σ ho => ?_) ?_⟩
  · rw [hq] at ho
    exact (Option.some.inj ho).symm.trans hqτ
  · refine hf.quiet_set ?_ (by rw [hpc]; rfl) (by rw [hpc]; exact nofun)
      (by rw [hpc]; exact nofun) ?_ (fun st' he => ?_) (fun q' he => ?_) fun r' k' hr' => ?_
    · exact ⟨rfl, rfl, rfl, rfl, rfl, rfl⟩
    · dsimp only
      split <;> rfl
    · rw [hq] at he
      cases he
    · rw [hq] at he
      cases he
      exact hqk ▸ hevict
    · dsimp only at hr'
      split at hr' <;> cases hr'

/-! ## Evictions -/

/-- `start_evict` claims the line. -/
theorem Tracks.evictClaim {w : Bool} (hk : h.Tracks c) (hh : h.Owned) (ht : h.Tagged)
    (ha : h.Addressed) (hpc : (h.threads τ).pc = .evictTry w)
    (hs : (h.lines (h.threads τ).cur).status ≠ .invalid) :
    ∃ c', Copy.Turned c c' ∧
      ((h.setLine (h.threads τ).cur ((h.lines (h.threads τ).cur).setFlagAndStatus
        (h.lines (h.threads τ).cur).flag .toPreserved)).setThread τ { h.threads τ with
          curType := if (h.lines (h.threads τ).cur).status = .shared then .evictShared else .evictDirty
          pc := .evictLock w }).Tracks c' := by
  have hf := hk.thread τ
  have hstake : (h.threads τ).stake.cur = some ((h.threads τ).cur, .trying) := by
    rw [Thread.stake, hpc]
    rfl
  have hne := (hh.fits τ).not_preserved (.inr (.inr ⟨_, hstake⟩))
  obtain ⟨st, hcopy⟩ := hf.cur.trying hpc
  have hat := hk.line _ hne
  rw [hcopy] at hat
  obtain ⟨hfl, hst, hsh⟩ := hat
  have hst' : st ≠ .invalid := by
    rintro rfl
    exact hs hst
  have hkind : st.evictKind = (if (h.lines (h.threads τ).cur).status = .shared then
      EvictType.evictShared else .evictDirty).request := by
    rw [hst]
    cases st <;> rfl
  refine ⟨_, ⟨h.address (h.threads τ).cur, .claimed ⟨τ, st.evictKind, false, false, .unsent⟩,
      hcopy ▸ .evict hst', rfl⟩,
    hk.turn (l := (h.lines (h.threads τ).cur).setFlagAndStatus
      (h.lines (h.threads τ).cur).flag .toPreserved) hh ht ha rfl rfl hne rfl
      (fun _ => ⟨hfl, ?_, ?_⟩) (.inl (by rintro ⟨⟩)) (fun σ ho => ?_) ?_⟩
  · rw [Claim.status, if_pos st.evictKind_isEvict]
    rfl
  · rw [hsh, st.evictKind_isEvict]
    rfl
  · rw [hcopy] at ho
    exact (Option.some.inj ho).symm
  · refine hf.set (fun r k hr => by cases hr) (fun hn => ⟨hn, rfl, hh.next_ne ha ht hn hstake⟩) ?_
      fun m hm => ⟨hm, fun q hq => ?_⟩
    · rw [Function.update_self]
      exact ⟨_, rfl, rfl, hkind, rfl⟩
    · rw [hcopy] at hq
      cases hq

/-- The line of an eviction is dropped. -/
theorem Tracks.evictDrop {w : Bool} (hk : h.Tracks c) (hh : h.Owned) (ht : h.Tagged)
    (ha : h.Addressed) (hw : h.WaitsWell) (hpc : (h.threads τ).pc = .evictDrop w) :
    ∃ c', Copy.Turned c c' ∧
      ((h.setLine (h.threads τ).cur
        ((h.lines (h.threads τ).cur).setFlagAndStatus false .preserved)).setThread τ
        { h.threads τ with pc := if w then .evictEnd else .lockSet }).Tracks c' := by
  have hf := hk.thread τ
  have hstake : (h.threads τ).stake.cur = some ((h.threads τ).cur, .ending) := by
    rw [Thread.stake, hpc]
    rfl
  have hne := (hh.fits τ).not_preserved (.inr (.inr ⟨_, hstake⟩))
  have hend := hf.cur.ending (.inr hpc)
  have hturn : Turn (c (h.address (h.threads τ).cur)) .absent := by
    rcases hend with hc | ⟨-, q, hc, hqτ, hqk, u, hu, hack | ⟨rfl, hflag⟩⟩
    · rw [hc]
      exact .discard τ
    · rw [hc]
      exact .evicted (hqk ▸ EvictType.request_isEvict _) hu hack
    · rw [hc]
      exact .lost (hqk ▸ EvictType.request_isEvict _) hu hflag
  have howner : ∀ σ, (c (h.address (h.threads τ).cur)).owner = some σ → σ = τ := by
    intro σ ho
    rcases hend with hc | ⟨-, q, hc, hqτ, -⟩ <;> rw [hc] at ho <;> cases ho
    · rfl
    · exact hqτ
  refine ⟨_, ⟨h.address (h.threads τ).cur, .absent, hturn, rfl⟩,
    hk.turn (l := (h.lines (h.threads τ).cur).setFlagAndStatus false .preserved) hh ht ha rfl rfl
      hne rfl (fun hno => absurd rfl hno) (.inr rfl) howner ?_⟩
  refine hf.set (fun r k hr => ?_) (fun hn => ⟨hn, rfl, hh.next_ne ha ht hn hstake⟩) ?_
    fun m hm => ⟨hm, fun q hq => ?_⟩
  · dsimp only at hr
    split at hr <;> cases hr
  · cases w with
    | true => trivial
    | false =>
        refine .of_outstanding rfl fun hwait => ?_
        rw [show (h.threads τ).waitCur = false from hw τ false (by rw [hpc]; rfl)] at hwait
        cases hwait
  · rcases hend with hc | ⟨hnone, -⟩
    · rw [hc] at hq
      cases hq
    · rw [show (h.threads τ).stash = _ from hm] at hnone
      cases hnone

/-- `wait_evict` takes back a refused eviction. -/
theorem Tracks.restored {l : LineInfo} (hk : h.Tracks c) (hh : h.Owned) (ht : h.Tagged)
    (ha : h.Addressed) (hpc : (h.threads τ).pc = .evictRestore)
    (hl : (h.lines (h.threads τ).cur).restore (h.threads τ).curType = some l) :
    ∃ c', Copy.Turned c c' ∧
      ((h.setLine (h.threads τ).cur l).setThread τ (h.threads τ).retryEvict).Tracks c' := by
  have hf := hk.thread τ
  obtain ⟨hne, hne', -⟩ := LineInfo.restore_full hl
  obtain ⟨hstash, q, hq, hqτ, hqk, hwait⟩ := hf.cur.restoring hpc
  have hevict : q.kind.isEvict := hqk ▸ EvictType.request_isEvict _
  have hat := hk.line _ hne
  rw [hq] at hat
  obtain ⟨hfl, hst, hsh⟩ := hat
  rw [Claim.status, if_pos hevict] at hst
  have hres : l.addr = h.address (h.threads τ).cur ∧
      (Copy.resting (q.settle q.restored) (some q.thread)).At (h.threads τ).cur.shadow l := by
    obtain ⟨-, -, ⟨hx, rfl⟩ | ⟨hx, rfl⟩⟩ := LineInfo.restore_eq hl
    · have hset : q.settle q.restored = .invalid := if_pos (hfl.symm.trans hx)
      rw [hset]
      exact ⟨rfl, rfl, rfl, hsh.trans hevict⟩
    · have hset : q.settle q.restored = q.restored :=
        if_neg (by rw [← hfl, hx]; exact Bool.false_ne_true)
      refine ⟨rfl, ?_⟩
      rw [hset]
      refine ⟨rfl, ?_, hsh.trans hevict⟩
      show (if _ then _ else _) = (if _ then _ else _ : Rest).status
      rw [hst, hqk]
      cases (h.threads τ).curType <;> cases q.downgraded <;> rfl
  refine ⟨_, ⟨h.address (h.threads τ).cur, _, hq ▸ .restored hevict hwait, rfl⟩,
    hk.turn hh ht ha rfl rfl hne hres.1 (fun _ => hres.2) (.inl hne') (fun σ ho => ?_) ?_⟩
  · rw [hq] at ho
    exact (Option.some.inj ho).symm.trans hqτ
  · refine hf.set (fun r k hr => by cases hr) nofun ?_ fun m hm => ?_
    · show ∃ st, Function.update c (h.address (h.threads τ).cur) _ (h.address (h.threads τ).cur)
        = .resting st (some τ)
      rw [Function.update_self, hqτ]
      exact ⟨_, rfl⟩
    · rw [show (h.threads τ).stash = _ from hm] at hstash
      cases hstash

/-! ## Insertions -/

/-- A thread that has looked through its whole set knows that the node has no copy. -/
theorem Tracks.unseen (hk : h.Tracks c) (ht : h.Tagged) (ha : h.Addressed)
    (hpc : (h.threads τ).pc.unseen = some []) : c (h.threads τ).addr = .absent := by
  refine hk.absent ha fun r => ?_
  by_contra hr
  rw [Bool.not_eq_false] at hr
  obtain ⟨hne, htag⟩ := holds_iff.mp hr
  have hset : r.set = (h.threads τ).set := by
    rw [ht.home r hne, htag]
    rfl
  have := ht.seen τ [] hpc r.shadow r.slot List.not_mem_nil
  rw [← hset] at this
  exact absurd hr (by rw [show (⟨r.shadow, r.set, r.slot⟩ : LineRef) = r from rfl] at this; rw [show (h.threads τ).addr.getTag = (h.threads τ).tag from rfl, this]; exact Bool.false_ne_true)

/-- What the thread knows after it has given up the copy of block `b`, which nobody has claimed,
and inserted a line for its own block. -/
theorem Tracks.follows_insert {t' : Thread} {b : Block} {y : Copy} {addr : LineRef → Block}
    {todo : List Slot} {exist : Bool} {available eviction : Option Slot} (hk : h.Tracks c)
    (hh : h.Owned) (hpc : (h.threads τ).pc = .scan todo exist available eviction)
    (hs : (h.threads τ).SameEviction t') (hpc' : t'.pc = .unlockSetW true)
    (hb : (c b).owner = none) (hself : c (h.threads τ).addr = .absent)
    (haddr : ∀ r, addr r = h.address r ∨ h.Loose r) :
    t'.Follows τ addr (Function.update (Function.update c b y) (h.threads τ).addr
      (.resting .invalid none)) := by
  have hfree : ∀ {x : Copy}, x.owner = none → (∀ st, x ≠ .resting st (some τ)) ∧
      ∀ q, x = .claimed q → q.kind.isEvict = false := by
    intro x hx
    constructor
    · rintro st rfl
      cases hx
    · rintro q rfl
      cases hx
  have hjob : ∀ {d : Block → Copy} r k, t'.pc.job = some (r, k) → h.address r = t'.addr ∧
      k.isEvict = false ∧ (d t'.addr).ClaimedBy τ k t'.pc.Asks := by
    intro d r k hr
    rw [hpc'] at hr
    cases hr
  have hev : t'.pc.evicts = false := by rw [hpc']; rfl
  have hgo : ∀ {x : Copy} {d : Block}, (c d).owner = none →
      t'.Follows τ h.address (Function.update c d x) := fun hd =>
    (hk.thread τ).quiet_set hs (by rw [hpc]; rfl) (by rw [hpc]; exact nofun)
      (by rw [hpc]; exact nofun) hev (hfree hd).1 (hfree hd).2 hjob
  have hboth : t'.Follows τ h.address (Function.update (Function.update c b y)
      (h.threads τ).addr (.resting .invalid none)) := by
    rcases eq_or_ne (h.threads τ).addr b with he | hne
    · rw [he, Function.update_idem]
      exact hgo hb
    · have hown : (Function.update c b y (h.threads τ).addr).owner = none := by
        rw [Function.update_of_ne hne, hself]
        rfl
      exact (hgo hb).quiet_set ⟨rfl, rfl, rfl, rfl, rfl, rfl⟩ hev (by rw [hpc']; exact nofun)
        (by rw [hpc']; exact nofun) hev (hfree hown).1 (hfree hown).2 hjob
  refine hboth.frame (fun _ _ => .refl _) fun r ho => (haddr r).resolve_right ?_
  refine hh.not_loose (τ := τ) ?_
  -- what it has a stake in now it had a stake in before
  simp only [Stake.Owns, Thread.stake, hpc, hpc', hs.startNext, hs.next, hs.cur, hs.waitCur] at ho ⊢
  exact ho

/-- A thread inserts line `r₀`: the copy of block `b`, if the line has kept one, becomes `y`, and
the other lines keep what they have kept, but for one that may take `y` over. -/
theorem Tracks.place {t' : Thread} {b : Block} {y : Copy} (r₀ : LineRef) (hk : h.Tracks c)
    (hh : h.Owned) (hth : h'.threads = Function.update h.threads τ t')
    (hnew : h'.address r₀ = (h.threads τ).addr ∧ h'.status r₀ = .invalid ∧
      (h'.lines r₀).flag = false) (hr₀ : r₀.shadow = false)
    (hself : c (h.threads τ).addr = .absent) (hb : (c b).owner = none)
    (hline : ∀ r, r ≠ r₀ → h'.status r ≠ .preserved →
      h'.lines r = h.lines r ∧ h.address r ≠ b ∨
        h'.address r = b ∧ b ≠ (h.threads τ).addr ∧ y.At r.shadow (h'.lines r))
    (hfound : y ≠ .absent → ∃ r, h'.status r ≠ .preserved ∧ h'.address r = b)
    (hkeep : ∀ r, h.status r ≠ .preserved → h.address r ≠ b → h'.lines r = h.lines r)
    (haddr : ∀ r, h'.address r = h.address r ∨ h.Loose r)
    (hfol : t'.Follows τ h'.address (Function.update (Function.update c b y) (h.threads τ).addr
      (.resting .invalid none))) :
    h'.Tracks (Function.update (Function.update c b y) (h.threads τ).addr
      (.resting .invalid none)) := by
  obtain ⟨hnb, hst, hfl⟩ := hnew
  refine hk.of_thread hh hth (fun r hr => ?_) (fun d hd => ?_) (fun d σ hσ hd => ?_) haddr hfol
  · rcases eq_or_ne r r₀ with rfl | hne
    · rw [hnb, Function.update_self]
      exact ⟨hfl, hst, hr₀⟩
    · rcases hline r hne hr with ⟨he, hb'⟩ | ⟨he, hb', hat⟩
      · have hat := hk.line r (by rw [status, ← he]; exact hr)
        have hne' : h.address r ≠ (h.threads τ).addr := by
          intro hc
          rw [hc, hself] at hat
          exact hat
        rw [show h'.address r = h.address r from congrArg LineInfo.addr he, he,
          Function.update_of_ne hne', Function.update_of_ne hb']
        exact hat
      · rw [he, Function.update_of_ne hb', Function.update_self]
        exact hat
  · rcases eq_or_ne d (h.threads τ).addr with rfl | hne
    · exact ⟨r₀, by rw [hst]; rintro ⟨⟩, hnb⟩
    · rw [Function.update_of_ne hne] at hd
      rcases eq_or_ne d b with rfl | hdb
      · rw [Function.update_self] at hd
        exact hfound hd
      · rw [Function.update_of_ne hdb] at hd
        obtain ⟨r, hr, rfl⟩ := hk.found d hd
        have he := hkeep r hr hdb
        exact ⟨r, by rw [status, he]; exact hr, congrArg LineInfo.addr he⟩
  · have hne : d ≠ (h.threads τ).addr := by
      rintro rfl
      rw [hself] at hd
      cases hd
    have hdb : d ≠ b := by
      rintro rfl
      rw [hb] at hd
      cases hd
    rw [Function.update_of_ne hne, Function.update_of_ne hdb]

/-- `newLine`. -/
theorem Tracks.insert {ptr : Addr} {exist : Bool} {available eviction : Option Slot}
    (hk : h.Tracks c) (hh : h.Owned) (ht : h.Tagged) (ha : h.Addressed)
    (hpc : (h.threads τ).pc = .scan [] exist available eviction)
    (hi : Inserted h τ ptr exist available eviction h') :
    ∃ c', Relation.ReflTransGen Copy.Turned c c' ∧ h'.Tracks c' := by
  have hslots : (h.threads τ).stake.slots = (available, eviction) := by
    rw [Thread.stake, hpc]
    rfl
  have haddr : ∀ r, h'.address r = h.address r ∨ h.Loose r := by
    intro r
    rcases hi.lines hh hpc r with he | ⟨-, hloose⟩
    · exact .inl (congrArg LineInfo.addr he)
    · exact .inr hloose
  have hf := hk.thread τ
  have hself : exist = false → c (h.threads τ).addr = .absent := fun he =>
    hk.unseen ht ha (by rw [hpc, he]; rfl)
  -- a line that keeps a copy does not keep that of the thread's block
  have hnot : exist = false → ∀ r, h.status r ≠ .preserved → h.address r ≠ (h.threads τ).addr := by
    intro he r hr hb
    have hat := hk.line r hr
    rw [hb, hself he] at hat
    exact hat
  cases hi with
  | none =>
      refine ⟨c, .refl, hk.still hh rfl (fun r => ⟨rfl, rfl, rfl⟩) (hf.quiet ?_ (by rw [hpc]; rfl)
        (by rw [hpc]; rintro ⟨⟩) (by rw [hpc]; rintro ⟨⟩) ?_ ?_)⟩
      · exact ⟨rfl, rfl, rfl, rfl, rfl, rfl⟩
      · rfl
      · exact fun _ _ hr => by cases hr
  | @fresh s d ds he hs hd =>
      have hp := (hh.fits τ).available s (by rw [hslots]; exact hs)
      have hsame : Function.update c (h.threads τ).addr .absent = c := by
        rw [← hself he, Function.update_eq_self]
      have hturn : Copy.Turned c (Function.update (Function.update c (h.threads τ).addr .absent)
          (h.threads τ).addr (.resting .invalid none)) :=
        ⟨_, _, by rw [hself he]; exact .fill, by rw [hsame]⟩
      have hown : (c (h.threads τ).addr).owner = none := by
        rw [hself he]
        rfl
      refine ⟨_, .single hturn, hk.place ⟨false, (h.threads τ).set, s⟩ hh rfl ?_ rfl (hself he)
        hown (fun r hr hr' => .inl ?_) (fun hn => (hn rfl).elim) (fun r hr _ => ?_) haddr
        (hk.follows_insert hh hpc ?_ rfl hown (hself he) haddr)⟩
      · simp only [address, status, setThread_lines, setLine_lines, Function.update_self]
        exact ⟨rfl, rfl, rfl⟩
      · simp only [status, setThread_lines, setLine_lines, Function.update_of_ne hr] at hr' ⊢
        exact ⟨trivial, hnot he r hr'⟩
      · have hne : r ≠ ⟨false, (h.threads τ).set, s⟩ := by
          rintro rfl
          exact hr hp
        exact Function.update_of_ne hne _ _
      · exact ⟨rfl, rfl, rfl, rfl, rfl, rfl⟩
  | @reused s he hs hav hst =>
      have hne : h.status ⟨false, (h.threads τ).set, s⟩ ≠ .preserved := by
        rw [status, hst]
        rintro ⟨⟩
      have hcopy : c (h.address ⟨false, (h.threads τ).set, s⟩) = .resting .invalid none :=
        hk.resting rfl hst
      have hat := hk.line _ hne
      rw [hcopy] at hat
      have hown : (c (h.address ⟨false, (h.threads τ).set, s⟩)).owner = none := by
        rw [hcopy]
        rfl
      have hreuse : Copy.Turned c
          (Function.update c (h.address ⟨false, (h.threads τ).set, s⟩) .absent) :=
        ⟨_, _, hcopy ▸ .reuse, rfl⟩
      have hfill : Copy.Turned (Function.update c (h.address ⟨false, (h.threads τ).set, s⟩) .absent)
          (Function.update (Function.update c (h.address ⟨false, (h.threads τ).set, s⟩) .absent)
            (h.threads τ).addr (.resting .invalid none)) := by
        refine ⟨_, _, ?_, rfl⟩
        rw [Function.update_of_ne (hnot he _ hne).symm, hself he]
        exact .fill
      refine ⟨_, .tail (.single hreuse) hfill, hk.place ⟨false, (h.threads τ).set, s⟩ hh rfl ?_
        rfl (hself he) hown (fun r hr hr' => .inl ?_) (fun hn => (hn rfl).elim) (fun r hr hr' => ?_) haddr
        (hk.follows_insert hh hpc ?_ rfl hown (hself he) haddr)⟩
      · simp only [address, status, setThread_lines, setLine_lines, Function.update_self]
        exact ⟨trivial, hst, hat.1⟩
      · simp only [status, setThread_lines, setLine_lines, Function.update_of_ne hr] at hr' ⊢
        exact ⟨trivial, fun hc => hr (ha.unique ht hr' hne hc)⟩
      · exact Function.update_of_ne (fun hc => hr' (congrArg h.address hc)) _ _
      · exact ⟨rfl, rfl, rfl, rfl, rfl, rfl⟩
  | @moved s he hs hav hst =>
      obtain ⟨hstable, hp⟩ := (hh.fits τ).eviction s (by rw [hslots]; exact hs)
      have hne : h.status ⟨false, (h.threads τ).set, s⟩ ≠ .preserved := by
        intro hc
        rw [hc] at hstable
        cases hstable
      obtain ⟨st, hst', hsti⟩ : ∃ st : Rest,
          h.status ⟨false, (h.threads τ).set, s⟩ = st.status ∧ st ≠ .invalid := by
        change h.status _ ≠ _ at hst
        revert hstable hst
        generalize h.status ⟨false, (h.threads τ).set, s⟩ = x
        cases x with
        | shared => exact fun _ _ => ⟨.shared, rfl, (by rintro ⟨⟩)⟩
        | modified => exact fun _ _ => ⟨.modified, rfl, (by rintro ⟨⟩)⟩
        | invalid => exact fun _ hx => absurd rfl hx
        | _ => rintro ⟨⟩
      have hcopy := hk.resting (r := ⟨false, (h.threads τ).set, s⟩) rfl hst'
      have hown : (c (h.address ⟨false, (h.threads τ).set, s⟩)).owner = none := by
        rw [hcopy]
        rfl
      have hpark : Copy.Turned c (Function.update c (h.address ⟨false, (h.threads τ).set, s⟩)
          (.resting st (some τ))) := ⟨_, _, hcopy ▸ .park τ hsti, rfl⟩
      have hfill : Copy.Turned (Function.update c (h.address ⟨false, (h.threads τ).set, s⟩)
            (.resting st (some τ)))
          (Function.update (Function.update c (h.address ⟨false, (h.threads τ).set, s⟩)
            (.resting st (some τ))) (h.threads τ).addr (.resting .invalid none)) := by
        refine ⟨_, _, ?_, rfl⟩
        rw [Function.update_of_ne (hnot he _ hne).symm, hself he]
        exact .fill
      have hat := hk.line _ hne
      rw [hcopy] at hat
      have hb := hnot he _ hne
      have hlines : ∀ r, r ≠ ⟨false, (h.threads τ).set, s⟩ →
          (Function.update (Function.update h.lines ⟨true, (h.threads τ).set, s⟩
            { h.lines ⟨true, (h.threads τ).set, s⟩ with
              tag := (h.lines ⟨false, (h.threads τ).set, s⟩).tag
              addr := (h.lines ⟨false, (h.threads τ).set, s⟩).addr
              data := (h.lines ⟨false, (h.threads τ).set, s⟩).data
              flag := false
              status := (h.lines ⟨false, (h.threads τ).set, s⟩).status })
            ⟨false, (h.threads τ).set, s⟩ (filled (h.threads τ)
              (h.lines ⟨false, (h.threads τ).set, s⟩) ((h.threads τ).stack.head?.getD ptr))) r =
          if r = ⟨true, (h.threads τ).set, s⟩ then
            { h.lines ⟨true, (h.threads τ).set, s⟩ with
              tag := (h.lines ⟨false, (h.threads τ).set, s⟩).tag
              addr := (h.lines ⟨false, (h.threads τ).set, s⟩).addr
              data := (h.lines ⟨false, (h.threads τ).set, s⟩).data
              flag := false
              status := (h.lines ⟨false, (h.threads τ).set, s⟩).status }
          else h.lines r := by
        intro r hr
        rw [Function.update_of_ne hr, Function.update_apply]
      have hshadow : (⟨true, (h.threads τ).set, s⟩ : LineRef) ≠ ⟨false, (h.threads τ).set, s⟩ :=
        fun hc => Bool.noConfusion (congrArg LineRef.shadow hc)
      have hfol : Thread.Follows { h.threads τ with
            stack := (h.threads τ).stack.tail, pc := .unlockSetW true } τ _ _ :=
        hk.follows_insert (b := h.address ⟨false, (h.threads τ).set, s⟩)
          (y := .resting st (some τ)) hh hpc ⟨rfl, rfl, rfl, rfl, rfl, rfl⟩ rfl hown (hself he) haddr
      have hnext : (Function.update (Function.update c (h.address ⟨false, (h.threads τ).set, s⟩)
          (.resting st (some τ))) (h.threads τ).addr (.resting .invalid none))
          (h.address ⟨false, (h.threads τ).set, s⟩) = .resting st (some τ) := by
        rw [Function.update_of_ne hb, Function.update_self]
      refine ⟨_, .tail (.single hpark) hfill, hk.place ⟨false, (h.threads τ).set, s⟩ hh rfl ?_
        rfl (hself he) hown (fun r hr hr' => ?_) (fun _ => ⟨⟨true, (h.threads τ).set, s⟩, ?_, ?_⟩)
        (fun r hr hr' => ?_) haddr ⟨hfol.job, fun _ => ⟨st, ?_⟩, hfol.cur, hfol.stash⟩⟩
      · simp only [address, status, setThread_lines, setLine_lines, Function.update_self]
        exact ⟨rfl, rfl, rfl⟩
      · simp only [address, status, setThread_lines, setLine_lines, hlines r hr] at hr' ⊢
        split at hr'
        next hrr =>
          subst hrr
          exact .inr ⟨by rw [if_pos rfl], hb, by rw [if_pos rfl]; exact ⟨rfl, hst', rfl⟩⟩
        next hrr =>
          rw [if_neg hrr]
          exact .inl ⟨rfl, fun hc => hr (ha.unique ht hr' hne hc)⟩
      · simp only [status, setThread_lines, setLine_lines]
        rw [hlines _ hshadow, if_pos rfl]
        exact hne
      · simp only [address, setThread_lines, setLine_lines]
        rw [hlines _ hshadow, if_pos rfl]
      · simp only [setThread_lines, setLine_lines]
        rw [hlines r fun hc => hr' (congrArg h.address hc), if_neg]
        rintro rfl
        exact hr hp
      · refine Eq.trans (congrArg _ ?_) hnext
        simp only [address, setThread_lines, setLine_lines]
        rw [hlines _ hshadow, if_pos rfl]

/-! ## The steps of a thread -/

/-- What a thread does by itself it does to the copies as the protocol allows. -/
theorem Tracks.turns {apptNum : ℕ} {ds : List Addr} {a : HostAction}
    (hr : (host apptNum ds).Reachable h) (hk : h.Tracks c) (hs : Stepped h a h') (hl : a.isLocal)
    (hag : a.agent? = none) : ∃ c', Relation.ReflTransGen Copy.Turned c c' ∧ h'.Tracks c' := by
  have hh := owned hr
  have ht := tagged hr
  have ha := addressed hr
  have hw := waitsWell hr
  -- the thread moves on, with the same eviction, and no lines but their locks change
  have hquiet : ∀ {τ : ThreadId} {t' : Thread} {pc : Pc}, h'.threads = Function.update h.threads τ t' →
      (∀ r, (h'.lines r).flag = (h.lines r).flag ∧ (h'.lines r).status = (h.lines r).status ∧
        (h'.lines r).addr = (h.lines r).addr) →
      (h.threads τ).pc = pc → pc.evicts = false → pc ≠ .swallow → pc ≠ .fault →
      (h.threads τ).SameEviction t' → t'.pc.evicts = false →
      (t'.pc.job = none ∨ t'.pc.job = pc.job ∧ t'.addr = (h.threads τ).addr ∧
        ∀ q, pc.Asks q → t'.pc.Asks q) →
      ∃ c', Relation.ReflTransGen Copy.Turned c c' ∧ h'.Tracks c' := by
    rintro τ t' _ hth hlines rfl hev hsw hfa hsame hev' hjob
    refine ⟨c, .refl, hk.still hh hth hlines ((hk.thread τ).quiet hsame hev hsw hfa hev' ?_)⟩
    intro r k hr'
    rcases hjob with hj | ⟨hj, haddr, hasks⟩
    · rw [hj] at hr'
      cases hr'
    · rw [hj] at hr'
      obtain ⟨he, hevict, q, hq, hτ, hqk, hq'⟩ := (hk.thread τ).job r k hr'
      rw [haddr]
      exact ⟨he, hevict, q, hq, hτ, hqk, hasks q hq'⟩
  have hlock : ∀ {r : LineRef} {v : ℕ} (x : LineRef),
      ((h.setLine r { h.lines r with lock := v }).lines x).flag = (h.lines x).flag ∧
      ((h.setLine r { h.lines r with lock := v }).lines x).status = (h.lines x).status ∧
      ((h.setLine r { h.lines r with lock := v }).lines x).addr = (h.lines x).addr := by
    intro r v x
    rw [setLine_lines]
    rcases eq_or_ne x r with rfl | hne
    · rw [Function.update_self]
      exact ⟨rfl, rfl, rfl⟩
    · rw [Function.update_of_ne hne]
      exact ⟨rfl, rfl, rfl⟩
  have hsame : ∀ x, (h.lines x).flag = (h.lines x).flag ∧ (h.lines x).status = (h.lines x).status ∧
      (h.lines x).addr = (h.lines x).addr := fun _ => ⟨rfl, rfl, rfl⟩
  cases hs with
  | @call τ drain write addr hpc =>
      refine hquiet rfl hsame hpc rfl (by rintro ⟨⟩) (by rintro ⟨⟩) ⟨rfl, rfl, rfl, rfl, rfl, rfl⟩ ?_ (.inl ?_)
      · dsimp only
        split
        · split <;> rfl
        · rfl
      · dsimp only
        split
        · split <;> rfl
        · rfl
  | @beginEvict τ hpc hn =>
      refine ⟨c, .refl, hk.still hh rfl hsame ?_⟩
      exact (hk.thread τ).still (fun _ _ hj => by cases hj) (by rintro ⟨⟩) ((hk.thread τ).next hn)
        fun m hm => hm
  | noEvict hpc | lockSet hpc | findSkip hpc | found hpc | shadowSkip hpc | lockSetW hpc
  | unlockSetW hpc | checked hpc | unchecked hpc | copy hpc | copied hpc =>
      exact hquiet rfl hsame hpc rfl (by rintro ⟨⟩) (by rintro ⟨⟩) ⟨rfl, rfl, rfl, rfl, rfl, rfl⟩ rfl (.inl rfl)
  | lineLock hpc | lineUnlock hpc =>
      exact hquiet rfl hlock hpc rfl (by rintro ⟨⟩) (by rintro ⟨⟩) ⟨rfl, rfl, rfl, rfl, rfl, rfl⟩ rfl (.inl rfl)
  | @evictInvalid τ w hpc hi =>
      refine ⟨c, .refl, hk.still hh rfl hsame ?_⟩
      refine (hk.thread τ).still (fun _ _ hj => by cases hj) (fun hn => ⟨hn, rfl⟩) (.inl ?_)
        fun m hm => hm
      obtain ⟨st, hcopy⟩ := (hk.thread τ).cur.trying hpc
      have hat := hk.line (h.threads τ).cur (by rw [status, hi]; rintro ⟨⟩)
      rw [hcopy] at hat
      have hst := hat.2.1
      rw [hi] at hst
      rw [hcopy]
      cases st <;> first | rfl | cases hst
  | evictClaim hpc hi => 
      obtain ⟨c', hc, hk'⟩ := hk.evictClaim hh ht ha hpc hi
      exact ⟨c', .single hc, hk'⟩
  | @evictDiscard τ w hpc =>
      refine ⟨c, .refl, hk.still hh rfl (fun x => ?_) ?_⟩
      · rw [setThread_lines, setLine_lines]
        rcases eq_or_ne x (h.threads τ).cur with rfl | hne
        · rw [Function.update_self]
          exact ⟨rfl, rfl, rfl⟩
        · rw [Function.update_of_ne hne]
          exact ⟨rfl, rfl, rfl⟩
      · exact (hk.thread τ).still (fun _ _ hj => by cases hj) (fun hn => ⟨hn, rfl⟩)
          ((hk.thread τ).cur.ending (.inl hpc)) fun m hm => hm
  | evictDrop hpc =>
      obtain ⟨c', hc, hk'⟩ := hk.evictDrop hh ht ha hw hpc
      exact ⟨c', .single hc, hk'⟩
  | @evictLock τ w hpc hl =>
      refine ⟨c, .refl, hk.still hh rfl hlock ?_⟩
      exact (hk.thread τ).still (fun _ _ hj => by cases hj) (fun hn => ⟨hn, rfl⟩)
        ((hk.thread τ).cur.unsent (.inl hpc)) fun m hm => hm
  | @looked τ line shadow todo hpc hf =>
      refine hquiet rfl hsame hpc rfl (by rintro ⟨⟩) (by rintro ⟨⟩) ⟨rfl, rfl, rfl, rfl, rfl, rfl⟩
        afterLookup_outside.evicts (.inl ?_)
      rcases afterLookup_cases h (h.threads τ) line shadow with ⟨k, hk, hk'⟩ | ⟨s, -, -, hk⟩ <;>
        dsimp only <;> rw [hk]
      · rcases hk' with rfl | rfl | ⟨rfl, -⟩ | ⟨s, -, rfl⟩ <;> rfl
      · rfl
  | claim hpc hf hst =>
      obtain ⟨c', hc, hk'⟩ := hk.claim hh ht ha hpc hst
      exact ⟨c', .single hc, hk'⟩
  | casFail hpc =>
      rcases hpc with ⟨hpc, ⟨rfl, -⟩ | rfl⟩ | ⟨hpc, rfl⟩ <;>
        exact hquiet rfl hsame hpc rfl (by rintro ⟨⟩) (by rintro ⟨⟩) ⟨rfl, rfl, rfl, rfl, rfl, rfl⟩ rfl (.inl rfl)
  | @unlock τ k hpc =>
      refine hquiet rfl hsame hpc rfl (by rintro ⟨⟩) (by rintro ⟨⟩) ⟨rfl, rfl, rfl, rfl, rfl, rfl⟩
        pc_outside.evicts (.inr ⟨?_, rfl, ?_⟩)
      · cases k <;> rfl
      · intro q hq
        cases k <;> first | exact hq | trivial
  | @scan τ s todo exist available eviction hpc =>
      refine hquiet rfl hsame hpc rfl (by rintro ⟨⟩) (by rintro ⟨⟩) ⟨rfl, rfl, rfl, rfl, rfl, rfl⟩
        scanSlot_outside.evicts (.inl ?_)
      obtain ⟨_, _, _, he, _⟩ := scanSlot_cases h (h.threads τ) s todo exist available eviction
      dsimp only
      rw [he]
      rfl
  | insert hpc hi => exact hk.insert hh ht ha hpc hi
  | @spun τ r kind hpc hf =>
      refine ⟨c, .refl, hk.still hh rfl hsame ((hk.thread τ).quiet ⟨rfl, rfl, rfl, rfl, rfl, rfl⟩
        (by rw [hpc]; rfl) (by rw [hpc]; rintro ⟨⟩) (by rw [hpc]; rintro ⟨⟩) rfl ?_)⟩
      rintro _ _ ⟨⟩
      obtain ⟨he, hevict, q, hq, hτ, hqk, hwait⟩ := (hk.thread τ).job r kind (by rw [hpc]; rfl)
      rw [hpc] at hwait
      have hat := hk.line r fun hp => by
        have htr := flagsWell hr r hf
        rw [show (h.lines r).status = _ from hp] at htr
        cases htr
      rw [he, hq] at hat
      exact ⟨he, hevict, q, hq, hτ, hqk, _, hwait, rfl, fun _ => hat.1.symm.trans hf⟩
  | finish hpc hp =>
      obtain ⟨c', hc, hk'⟩ := hk.finish hh ht ha hpc hp
      exact ⟨c', .single hc, hk'⟩
  | @bodyEnd τ hpc =>
      refine hquiet rfl hsame hpc rfl (by rintro ⟨⟩) (by rintro ⟨⟩) ⟨rfl, rfl, rfl, rfl, rfl, rfl⟩ ?_ (.inl ?_)
      · dsimp only
        split
        · rfl
        · exact loop_outside.evicts
      · dsimp only
        split
        · rfl
        · exact loop_job
  | @unstash τ m hpc hm =>
      have hf := hk.thread τ
      refine ⟨c, .refl, hk.still hh rfl hsame ?_⟩
      have hpc' : ∀ r k, ({ h.threads τ with stash := none }.onEvictReply
          (h.lines (h.threads τ).cur).tag m).pc.job ≠ some (r, k) := by
        intro r k
        obtain ⟨pc, he, hcases⟩ := onEvictReply_cases { h.threads τ with stash := none }
          (h.lines (h.threads τ).cur).tag m
        rw [he]
        rcases hcases with rfl | rfl | rfl | rfl <;> rintro ⟨⟩
      refine hf.still (fun r k hj => absurd hj (hpc' r k)) (fun hn => ⟨hn, rfl⟩)
        (Thread.evicts_onEvictReply rfl fun htag => ?_) (by rintro _ ⟨⟩)
      have hstake : (h.threads τ).stake.cur = some ((h.threads τ).cur, .waiting) := by
        rw [Thread.stake, hpc]
        rfl
      have hne := (hh.fits τ).not_preserved (.inr (.inr ⟨_, hstake⟩))
      obtain ⟨q, hq, hτ, hqk, -⟩ := hf.cur.outstanding (by rw [hpc]; rfl) (by rw [hpc]; rintro ⟨⟩)
        (by rw [hpc]; rintro ⟨⟩) (hw τ true (by rw [hpc]; rfl))
      obtain ⟨b, q', hb, hq', -, -, hans⟩ := hf.stash m hm
      obtain rfl : b = h.address (h.threads τ).cur :=
        Block.getTag_inj (hb.symm.trans (htag.trans (ha _ hne)))
      cases hq.symm.trans hq'
      exact ⟨q, hq, hτ, hqk, hans⟩
  | restored hpc hres =>
      obtain ⟨c', hc, hk'⟩ := hk.restored hh ht ha hpc hres
      exact ⟨c', .single hc, hk'⟩
  | @evictSpun τ hpc hf =>
      refine ⟨c, .refl, hk.still hh rfl hsame ?_⟩
      obtain ⟨hst, q, hq, hτ, hqk, hans⟩ := (hk.thread τ).cur.spinning hpc
      refine (hk.thread τ).still (fun _ _ hj => by cases hj) (fun hn => ⟨hn, rfl⟩)
        (.inr ⟨hst, q, hq, hτ, hqk, _, hans, .inr ⟨rfl, ?_⟩⟩) fun m hm => hm
      have hat := hk.line (h.threads τ).cur fun hp => by
        have htr := flagsWell hr _ hf
        rw [show (h.lines (h.threads τ).cur).status = _ from hp] at htr
        cases htr
      rw [hq] at hat
      exact hat.1.symm.trans hf
  | @evictEnd τ hpc =>
      refine ⟨c, .refl, hk.still hh rfl hlock ?_⟩
      exact (hk.thread τ).still (fun r k hj => by rw [loop_job] at hj; cases hj)
        (fun hn => ⟨hn, rfl⟩) (.of_outstanding loop_outside.evicts (by rintro ⟨⟩)) fun m hm => hm
  | evictSend | request | reply | evictReply | swallow | take => cases hl
  | agentLock | agentSkip | agentFound | agentShadowSkip | agentLooked | agentObey | agentFault
  | agentUnlock => cases hag

end Host

end Ting
