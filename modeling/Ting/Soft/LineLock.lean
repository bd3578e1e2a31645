/-
# `Ting.Soft.LineLock` — who is inside a line

The lock of a line is held by the threads that copy from or to the line and by the thread that
evicts it, from the request to the end of `wait_evict`.  The counter accounts for all of them,
so two threads are inside a line only if both have the read lock.  In the shadow set that does not
mean that both read.
-/
import Ting.Soft.Stakes

open Total RwLock

namespace Ting

/-! ## Positions -/

namespace Pc

/-- The line whose lock a thread holds for a copy. -/
def locked : Pc → Option LineRef
  | lineCheck r _ | copy r | copying r _ | lineUnlock r => some r
  | _ => none

/-- Whether a thread holds the lock of the line that it evicts.  `start_evict` takes it, unless
`wait_evict` has called it and has it already. -/
def locksEvict (waitCur : Bool) : Pc → Bool
  | evictTry w | evictDiscard w | evictDrop w | evictLock w => w
  | evictSend _ | waitEvict | evictRestore | evictSpin | evictEnd => true
  | _ => waitCur

/-- A position without a lock of a line, but for that of an outstanding eviction. -/
structure Outside (pc : Pc) : Prop where
  line : pc.locked = none
  evict : ∀ w, pc.locksEvict w = w

end Pc

namespace Thread

/-- The thread is inside line `r` with the read lock. -/
def readsLine (t : Thread) (r : LineRef) : ℕ :=
  ind (t.pc.locked = some r ∧ t.excludes r = false)

/-- The thread is inside line `r` with the write lock, or evicts the line. -/
def writesLine (t : Thread) (r : LineRef) : ℕ :=
  ind (t.pc.locked = some r ∧ t.excludes r) + ind (t.pc.locksEvict t.waitCur ∧ t.cur = r)

variable {t t' : Thread}

theorem excludes_eq (hw : t'.write = t.write) (r : LineRef) : t'.excludes r = t.excludes r := by
  rw [excludes, excludes, hw]

theorem readsLine_of_ne {r : LineRef} (h : t.pc.locked ≠ some r) : t.readsLine r = 0 :=
  ind_of_not fun hr => h hr.1

/-- A thread that stays inside the line that it copies from or to, or has none. -/
theorem readsLine_eq (hl : t'.pc.locked = t.pc.locked)
    (hw : t'.write = t.write ∨ t.pc.locked = none) (r : LineRef) :
    t'.readsLine r = t.readsLine r := by
  refine ind_congr ?_
  rw [hl]
  rcases hw with hw | hn
  · rw [excludes_eq hw]
  · simp only [hn, reduceCtorEq, false_and]

/-- If it does not take the lock of the line that it evicts either, it holds no new lock. -/
theorem writesLine_le (hl : t'.pc.locked = t.pc.locked)
    (hw : t'.write = t.write ∨ t.pc.locked = none)
    (hevict : t'.pc.locksEvict t'.waitCur → t.pc.locksEvict t.waitCur ∧ t'.cur = t.cur)
    (r : LineRef) : t'.writesLine r ≤ t.writesLine r := by
  refine Nat.add_le_add (ind_mono ?_) (ind_mono ?_)
  · rw [hl]
    rintro ⟨hr, hwrite⟩
    rcases hw with hw | hn
    · exact ⟨hr, excludes_eq hw r ▸ hwrite⟩
    · rw [hn] at hr
      cases hr
  · rintro ⟨hr, rfl⟩
    exact ⟨(hevict hr).1, (hevict hr).2.symm⟩

end Thread

theorem loop_outside {t : Thread} : t.loop.Outside := by
  rcases loop_cases (t := t) with h | h <;> rw [h] <;> exact ⟨rfl, fun _ => rfl⟩

theorem afterLookup_outside {h : Host} {t : Thread} {line shadow : Option Slot} :
    (h.afterLookup t line shadow).Outside := by
  rcases afterLookup_cases h t line shadow with
    ⟨_, h, _⟩ | ⟨_, _, _, h⟩ <;> rw [h] <;> exact ⟨rfl, fun _ => rfl⟩

theorem scanSlot_outside {h : Host} {t : Thread} {s : Slot} {todo : List Slot} {exist : Bool}
    {available eviction : Option Slot} :
    (h.scanSlot t s todo exist available eviction).Outside := by
  obtain ⟨_, _, _, h, _⟩ := scanSlot_cases h t s todo exist available eviction
  rw [h]
  exact ⟨rfl, fun _ => rfl⟩

theorem pc_outside {k : AfterLookup} : k.pc.Outside := by
  cases k <;> exact ⟨rfl, fun _ => rfl⟩

theorem replySwitch_outside {r : LineRef} {kind : RawMessageType} {hasData granted : Bool}
    {m : RawMessageType} : (replySwitch r kind hasData granted m).Outside := by
  rcases replySwitch_cases r kind hasData granted
    m with h | h | ⟨_, _, ⟨_, h⟩ | h | ⟨_, _, h⟩⟩ <;> rw [h] <;> exact ⟨rfl, fun _ => rfl⟩

namespace Host

variable {h h' : Host} {τ : ThreadId} {t' : Thread}

/-! ## Counting -/

/-- The readers inside line `r`. -/
def lineReaders (h : Host) (r : LineRef) : ℕ :=
  ∑ τ, (h.threads τ).readsLine r

/-- The writers inside line `r`, among them the thread that evicts it. -/
def lineWriters (h : Host) (r : LineRef) : ℕ :=
  ∑ τ, (h.threads τ).writesLine r

/-- The locks of the lines account for all that are inside. -/
def LinesHeld (h : Host) : Prop :=
  ∀ r, Held (h.lines r).lock (h.lineReaders r) (h.lineWriters r)

theorem le_lineReaders (h : Host) (τ : ThreadId) (r : LineRef) :
    (h.threads τ).readsLine r ≤ h.lineReaders r :=
  le_sum (fun τ => (h.threads τ).readsLine r) τ

theorem le_lineWriters (h : Host) (τ : ThreadId) (r : LineRef) :
    (h.threads τ).writesLine r ≤ h.lineWriters r :=
  le_sum (fun τ => (h.threads τ).writesLine r) τ

/-- A step of a thread, seen from the lock of one line: `n` readers and `m` writers are others. -/
theorem LinesHeld.thread (hh : h.LinesHeld) (hth : h'.threads = Function.update h.threads τ t')
    (hstep : ∀ r n m, Held (h.lines r).lock (n + (h.threads τ).readsLine r)
        (m + (h.threads τ).writesLine r) →
      Held (h'.lines r).lock (n + t'.readsLine r) (m + t'.writesLine r)) : h'.LinesHeld := by
  intro r
  have hn := sum_update (fun _ t => Thread.readsLine t r) h.threads τ t'
  have hm := sum_update (fun _ t => Thread.writesLine t r) h.threads τ t'
  rw [← hth] at hn hm
  have hle := h.le_lineReaders τ r
  have hle' := h.le_lineWriters τ r
  have := hstep r (h.lineReaders r - (h.threads τ).readsLine r)
    (h.lineWriters r - (h.threads τ).writesLine r)
    (by rw [Nat.sub_add_cancel hle, Nat.sub_add_cancel hle']; exact hh r)
  rwa [show h.lineReaders r - (h.threads τ).readsLine r + t'.readsLine r = h'.lineReaders r by
      unfold lineReaders at *; omega,
    show h.lineWriters r - (h.threads τ).writesLine r + t'.writesLine r = h'.lineWriters r by
      unfold lineWriters at *; omega] at this

/-- A step that touches no lock of a line, and after which its thread holds no new one. -/
theorem LinesHeld.quiet (hh : h.LinesHeld) (hth : h'.threads = Function.update h.threads τ t')
    (hlock : ∀ r, (h'.lines r).lock = (h.lines r).lock)
    (hreads : ∀ r, t'.readsLine r ≤ (h.threads τ).readsLine r)
    (hwrites : ∀ r, t'.writesLine r ≤ (h.threads τ).writesLine r) : h'.LinesHeld := by
  refine hh.thread hth fun r n m hheld => ?_
  rw [hlock r]
  exact hheld.mono (Nat.add_le_add_left (hreads r) n) (Nat.add_le_add_left (hwrites r) m)

/-- The same, with what the position says. -/
theorem LinesHeld.still (hh : h.LinesHeld) (hth : h'.threads = Function.update h.threads τ t')
    (hlock : ∀ r, (h'.lines r).lock = (h.lines r).lock)
    (hl : t'.pc.locked = (h.threads τ).pc.locked)
    (hw : t'.write = (h.threads τ).write ∨ (h.threads τ).pc.locked = none)
    (hevict : t'.pc.locksEvict t'.waitCur →
      (h.threads τ).pc.locksEvict (h.threads τ).waitCur ∧ t'.cur = (h.threads τ).cur) :
    h'.LinesHeld :=
  hh.quiet hth hlock (fun r => (Thread.readsLine_eq hl hw r).le) (Thread.writesLine_le hl hw hevict)

/-- A thread that is outside before and after. -/
theorem LinesHeld.outside (hh : h.LinesHeld) (hth : h'.threads = Function.update h.threads τ t')
    (hlock : ∀ r, (h'.lines r).lock = (h.lines r).lock) (hold : (h.threads τ).pc.Outside)
    (hnew : t'.pc.Outside) (hwait : t'.waitCur = (h.threads τ).waitCur)
    (hcur : t'.cur = (h.threads τ).cur) : h'.LinesHeld := by
  refine hh.still hth hlock (hnew.line.trans hold.line.symm) (.inr hold.line) ?_
  rw [hnew.evict, hold.evict, hwait]
  exact fun hw => ⟨hw, hcur⟩

/-- A step that changes the lock of line `x`, and what its thread does there and nowhere else. -/
theorem LinesHeld.at {x : LineRef} {l : LineInfo} (hh : h.LinesHeld)
    (hth : h'.threads = Function.update h.threads τ t')
    (hlines : h'.lines = Function.update h.lines x l)
    (hold : ∀ r, (h.threads τ).pc.locked = some r → r = x)
    (hnew : ∀ r, t'.pc.locked = some r → r = x)
    (hevict : ∀ r, r ≠ x → t'.pc.locksEvict t'.waitCur → t'.cur = r →
      (h.threads τ).pc.locksEvict (h.threads τ).waitCur ∧ (h.threads τ).cur = r)
    (hstep : ∀ n m, Held (h.lines x).lock (n + (h.threads τ).readsLine x)
        (m + (h.threads τ).writesLine x) →
      Held l.lock (n + t'.readsLine x) (m + t'.writesLine x)) : h'.LinesHeld := by
  refine hh.thread hth fun r n m hheld => ?_
  rw [hlines]
  rcases eq_or_ne r x with rfl | hne
  · rw [Function.update_self]
    exact hstep n m hheld
  · rw [Function.update_of_ne hne]
    refine hheld.mono ?_ (Nat.add_le_add_left (Nat.add_le_add (ind_mono ?_) (ind_mono ?_)) m)
    · rw [Thread.readsLine_of_ne fun he => hne (hnew r he)]
      exact Nat.le_add_right _ _
    · exact fun he => absurd (hnew r he.1) hne
    · exact fun he => hevict r hne he.1 he.2

/-! ## Steps -/

/-- A line that is stored with its old lock. -/
theorem lock_eq {x : LineRef} {l : LineInfo} (hlines : h'.lines = Function.update h.lines x l)
    (hl : l.lock = (h.lines x).lock) (r : LineRef) : (h'.lines r).lock = (h.lines r).lock := by
  rw [hlines]
  rcases eq_or_ne r x with rfl | hne
  · rw [Function.update_self, hl]
  · rw [Function.update_of_ne hne]

/-- An insertion touches no lock of a line, and leaves its thread outside. -/
theorem Inserted.outside {ptr : Addr} {exist : Bool} {available eviction : Option Slot}
    (hi : Inserted h τ ptr exist available eviction h') : ∃ t',
      h'.threads = Function.update h.threads τ t' ∧ t'.pc.Outside ∧
        t'.waitCur = (h.threads τ).waitCur ∧ t'.cur = (h.threads τ).cur ∧
          ∀ r, (h'.lines r).lock = (h.lines r).lock := by
  have hout : ∀ new, (Pc.unlockSetW new).Outside := fun _ => ⟨rfl, fun _ => rfl⟩
  cases hi with
  | none => exact ⟨_, rfl, hout _, rfl, rfl, fun _ => rfl⟩
  | fresh | reused => exact ⟨_, rfl, hout _, rfl, rfl, lock_eq rfl rfl⟩
  | @moved s =>
      refine ⟨_, rfl, hout _, rfl, rfl, fun r => ?_⟩
      rcases eq_or_ne r ⟨false, (h.threads τ).set, s⟩ with rfl | hne
      · rw [setThread_lines, setLine_lines, Function.update_self]
        rfl
      · rw [setThread_lines, setLine_lines, Function.update_of_ne hne]
        refine lock_eq setLine_lines ?_ r
        rfl

theorem LinesHeld.step {a : HostAction} (hh : h.LinesHeld) (hs : Stepped h a h')
    (hw : h.WaitsWell) : h'.LinesHeld := by
  have hout : ∀ {pc pc' : Pc}, pc = pc' → pc'.locked = none → (∀ w, pc'.locksEvict w = w) →
      pc.Outside := by
    rintro pc _ rfl hl he
    exact ⟨hl, he⟩
  cases hs with
  | call hpc =>
      refine hh.still rfl (fun _ => rfl) ?_ (.inr (by rw [hpc]; rfl)) fun he => ⟨?_, rfl⟩
      · rw [hpc]
        dsimp only
        split
        · split <;> rfl
        · rfl
      · rw [hpc]
        dsimp only at he
        split at he
        · split at he
          next hc => exact hc
          next => exact he
        · exact he
  | noEvict hpc | lockSet hpc | findSkip hpc | found hpc | shadowSkip hpc | lockSetW hpc
  | unlockSetW hpc | request hpc | spun hpc =>
      exact hh.outside rfl (fun _ => rfl) (hout hpc rfl fun _ => rfl) ⟨rfl, fun _ => rfl⟩ rfl rfl
  | looked hpc =>
      exact hh.outside rfl (fun _ => rfl) (hout hpc rfl fun _ => rfl) afterLookup_outside rfl rfl
  | unlock hpc =>
      exact hh.outside rfl (fun _ => rfl) (hout hpc rfl fun _ => rfl) pc_outside rfl rfl
  | scan hpc =>
      exact hh.outside rfl (fun _ => rfl) (hout hpc rfl fun _ => rfl) scanSlot_outside rfl rfl
  | claim hpc =>
      refine hh.outside rfl (lock_eq rfl rfl) ?_ ⟨rfl, fun _ => rfl⟩ rfl rfl
      rcases hpc with ⟨hpc, _⟩ | ⟨hpc, _⟩ <;> exact hout hpc rfl fun _ => rfl
  | casFail hpc =>
      rcases hpc with ⟨hpc, ⟨rfl, _⟩ | rfl⟩ | ⟨hpc, rfl⟩ <;>
        exact hh.outside rfl (fun _ => rfl) (hout hpc rfl fun _ => rfl) ⟨rfl, fun _ => rfl⟩ rfl rfl
  | insert hpc hi =>
      obtain ⟨t', hth, hnew, hwait, hcur, hlock⟩ := hi.outside
      exact hh.outside hth hlock (hout hpc rfl fun _ => rfl) hnew hwait hcur
  | finish hpc hp =>
      refine hh.outside rfl (lock_eq rfl (LineInfo.publish_full hp).2.2.2.2)
        (hout hpc rfl fun _ => rfl) ?_ rfl rfl
      dsimp only
      split <;> exact ⟨rfl, fun _ => rfl⟩
  | @reply τ r kind hasData granted m hpc =>
      have hold := hout hpc rfl fun _ => rfl
      rcases onReply_cases (h.threads τ) r kind hasData
        granted (h.lines (h.threads τ).cur).tag m with
        ⟨pc, hk, rfl | rfl⟩ | ⟨hk, -⟩
      · exact hh.outside rfl (fun _ => rfl) hold (by rw [hk]; exact replySwitch_outside)
          (by rw [hk]) (by rw [hk])
      · exact hh.outside rfl (fun _ => rfl) hold (by rw [hk]; exact ⟨rfl, fun _ => rfl⟩)
          (by rw [hk]) (by rw [hk])
      · exact hh.outside rfl (fun _ => rfl) hold (by rw [hk]; exact hold) (by rw [hk]) (by rw [hk])
  | checked hpc | unchecked hpc | copy hpc | copied hpc =>
      exact hh.still rfl (fun _ => rfl) (by rw [hpc]; rfl) (.inl rfl)
        fun he => ⟨by rw [hpc]; exact he, rfl⟩
  | swallow | take | agentLock | agentSkip | agentFound | agentShadowSkip | agentLooked
  | agentFault | agentUnlock => exact hh
  | beginEvict hpc =>
      exact hh.still rfl (fun _ => rfl) (by rw [hpc]; rfl) (.inl rfl) fun he => nomatch he
  | evictInvalid hpc =>
      exact hh.still rfl (fun _ => rfl) (by rw [hpc]; rfl) (.inl rfl)
        fun he => ⟨by rw [hpc]; exact he, rfl⟩
  | evictClaim hpc | evictDiscard hpc =>
      exact hh.still rfl (lock_eq rfl rfl) (by rw [hpc]; rfl) (.inl rfl)
        fun he => ⟨by rw [hpc]; exact he, rfl⟩
  | @evictDrop τ w hpc =>
      cases w with
      | true =>
          exact hh.still rfl (lock_eq rfl rfl) (by rw [hpc]; rfl) (.inl rfl)
            fun _ => ⟨by rw [hpc]; rfl, rfl⟩
      | false =>
          refine hh.still rfl (lock_eq rfl rfl) (by rw [hpc]; rfl) (.inl rfl) fun he => ?_
          exact absurd (hw τ false (by rw [hpc]; rfl)) (by rw [Bool.not_eq_false]; exact he)
  | @evictSend τ w _ hpc =>
      refine hh.still rfl (fun _ => rfl) ?_ (.inl rfl) fun _ => ⟨by rw [hpc]; rfl, rfl⟩
      rw [hpc]
      cases w <;> rfl
  | unstash hpc | evictReply hpc =>
      obtain ⟨_, hk, hpc'⟩ := onEvictReply_cases _ _ _
      refine hh.still rfl (fun _ => rfl) ?_ (.inl (by rw [hk])) fun _ => ⟨by rw [hpc]; rfl, by rw [hk]⟩
      rw [hk, hpc]
      rcases hpc' with rfl | rfl | rfl | rfl <;> rfl
  | restored hpc hl =>
      exact hh.still rfl (lock_eq rfl (LineInfo.restore_full hl).2.2.2.2) (by rw [hpc]; rfl)
        (.inl rfl) fun _ => ⟨by rw [hpc]; rfl, rfl⟩
  | evictSpun hpc =>
      exact hh.still rfl (fun _ => rfl) (by rw [hpc]; rfl) (.inl rfl)
        fun _ => ⟨by rw [hpc]; rfl, rfl⟩
  | bodyEnd hpc =>
      have hold := hout hpc rfl fun _ => rfl
      refine hh.still rfl (fun _ => rfl) ?_ (.inl rfl) fun he => ⟨?_, rfl⟩
      · rw [hold.line]
        dsimp only
        split
        · rfl
        · exact loop_outside.line
      · rw [hold.evict]
        dsimp only at he
        split at he
        next hc => exact (Bool.and_eq_true_iff.mp hc).2
        next => rwa [loop_outside.evict] at he
  | @evictLock τ w hpc hl =>
      refine hh.at rfl rfl ?_ (fun r => nofun) ?_ fun n m hheld => ?_
      · rw [hpc]
        exact nofun
      · intro r hne _ he
        exact absurd he.symm hne
      · rw [hl] at hheld
        obtain ⟨hn, hm, hone⟩ := hheld.wLock
        simp only [Thread.readsLine, Thread.writesLine, Pc.locked, Pc.locksEvict, reduceCtorEq,
          false_and, ind_false, true_and, ind_true] at hn hm ⊢
        exact hone.mono (by omega) (by omega)
  | @lineLock τ x hit v hpc hl =>
      refine hh.at rfl rfl ?_ (fun r he => (Option.some.inj he).symm) ?_ fun n m hheld => ?_
      · rw [hpc]
        exact nofun
      · intro r _ he hcur
        rw [hpc]
        exact ⟨he, hcur⟩
      · simp only [Thread.readsLine, Thread.writesLine, hpc, Pc.locked, Pc.locksEvict,
          reduceCtorEq, false_and, ind_false, true_and, Nat.add_zero, Nat.zero_add] at hheld ⊢
        have hsame : Thread.excludes { h.threads τ with pc := .lineCheck x hit } x
          = (h.threads τ).excludes x := rfl
        rw [hsame]
        rcases hl with ⟨hwrite, hl, rfl⟩ | ⟨hwrite, hl, rfl⟩
        · rw [hl] at hheld
          obtain ⟨hn, hm, hone⟩ := hheld.wLock
          simp only [hwrite, ind_true, Bool.true_eq_false, ind_false]
          rw [Nat.add_left_comm, Nat.add_comm 1]
          exact hone
        · simp only [hwrite, ind_true, Bool.false_eq_true, ind_false, Nat.zero_add]
          exact hheld.rLock hl
  | @lineUnlock τ x hpc =>
      refine hh.at rfl rfl ?_ (fun r => nofun) ?_ fun n m hheld => ?_
      · rw [hpc]
        exact fun r he => (Option.some.inj he).symm
      · intro r _ he hcur
        rw [hpc]
        exact ⟨he, hcur⟩
      · simp only [Thread.readsLine, Thread.writesLine, hpc, Pc.locked, Pc.locksEvict,
          reduceCtorEq, false_and, ind_false, true_and, Nat.add_zero, Nat.zero_add] at hheld ⊢
        cases hwrite : (h.threads τ).excludes x with
        | true =>
            simp only [hwrite, ind_true, Bool.true_eq_false, ind_false, Nat.add_zero, if_true]
              at hheld ⊢
            rw [Nat.add_left_comm, Nat.add_comm 1] at hheld
            exact hheld.wUnlock
        | false =>
            simp only [hwrite, ind_true, Bool.false_eq_true, ind_false, Nat.zero_add, if_false]
              at hheld ⊢
            exact hheld.rUnlock
  | @evictEnd τ hpc =>
      refine hh.at rfl rfl ?_ ?_ ?_ fun n m hheld => ?_
      · rw [hpc]
        exact nofun
      · dsimp only
        rw [loop_outside.line]
        exact nofun
      · intro r _ he
        rw [loop_outside.evict] at he
        cases he
      · simp only [Thread.readsLine, Thread.writesLine, loop_outside.line, loop_outside.evict,
          reduceCtorEq, false_and, Bool.false_eq_true, ind_false, Nat.add_zero]
        simp only [Thread.readsLine, Thread.writesLine, hpc, Pc.locked, Pc.locksEvict,
          reduceCtorEq, false_and, ind_false, true_and, ind_true, Nat.add_zero,
          Nat.zero_add] at hheld
        exact hheld.wUnlock
  | agentObey hpc ht hl =>
      exact hh.still (Function.update_eq_self (0 : ThreadId) h.threads).symm
        (lock_eq rfl hl.full.2.2.2) rfl (.inl rfl) fun he => ⟨he, rfl⟩

theorem LinesHeld.init {apptNum : ℕ} {ds : List Addr} (hi : Init apptNum ds h) : h.LinesHeld := by
  intro r
  have hn : h.lineReaders r = 0 := Finset.sum_eq_zero fun τ _ =>
    Thread.readsLine_of_ne fun he => by rw [hi.pc τ] at he; cases he
  have hm : h.lineWriters r = 0 := Finset.sum_eq_zero fun τ _ => by
    simp only [Thread.writesLine, hi.pc τ, hi.waitCur τ, Pc.locked, Pc.locksEvict, reduceCtorEq,
      Bool.false_eq_true, false_and, ind_false, Nat.add_zero]
  rw [hi.lock r, hn, hm]
  exact held_zero

theorem linesHeld {apptNum : ℕ} {ds : List Addr} (hr : (host apptNum ds).Reachable h) :
    h.LinesHeld :=
  Host.invariant (fun _ hi => .init hi) (fun _ _ _ hr hh hs => hh.step hs (waitsWell hr)) hr

/-! ## Exclusion -/

section Exclusion

variable {r : LineRef} {σ : ThreadId}

/-- While a thread is inside a line, its lock is not free. -/
theorem LinesHeld.locked (hh : h.LinesHeld) (hτ : (h.threads τ).pc.locked = some r) :
    (h.lines r).lock ≠ 0 := by
  cases hwrite : (h.threads τ).excludes r with
  | true =>
      have hle := h.le_lineWriters τ r
      rw [Thread.writesLine, ind_of ⟨hτ, hwrite⟩] at hle
      rw [((hh r).alone (by omega)).2.2]
      exact nofun
  | false =>
      have hle := h.le_lineReaders τ r
      rw [Thread.readsLine, ind_of ⟨hτ, hwrite⟩] at hle
      exact ((hh r).shared hle).2.1

/-- And no thread holds it for an eviction. -/
theorem LinesHeld.not_evicting (hh : h.LinesHeld) (hτ : (h.threads τ).pc.locked = some r)
    (hσ : (h.threads σ).pc.locksEvict (h.threads σ).waitCur) : (h.threads σ).cur ≠ r := by
  intro hcur
  have hevict : 1 ≤ (h.threads σ).writesLine r := by
    rw [Thread.writesLine, ind_of (P := _ ∧ _) ⟨hσ, hcur⟩]
    exact Nat.le_add_left _ _
  have hle := h.le_lineWriters σ r
  cases hwrite : (h.threads τ).excludes r with
  | true =>
      have hone := ((hh r).alone (le_trans hevict hle)).1
      rcases eq_or_ne σ τ with rfl | hne
      · rw [Thread.writesLine, ind_of ⟨hτ, hwrite⟩, ind_of (P := _ ∧ _) ⟨hσ, hcur⟩] at hle
        omega
      · have hpair : _ ≤ h.lineWriters r :=
          pair_le_sum (fun τ => (h.threads τ).writesLine r) hne
        have hτw : 1 ≤ (h.threads τ).writesLine r := by
          rw [Thread.writesLine, ind_of ⟨hτ, hwrite⟩]
          exact Nat.le_add_right _ _
        omega
  | false =>
      have hreads := h.le_lineReaders τ r
      rw [Thread.readsLine, ind_of ⟨hτ, hwrite⟩] at hreads
      have hzero := ((hh r).shared hreads).1
      omega

end Exclusion

end Host

end Ting
