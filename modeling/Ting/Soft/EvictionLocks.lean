/-
# `Ting.Soft.EvictionLocks` — the locks of the evicted lines

`start_evict` takes the lock of the line and `wait_evict` gives it back.  Between the two calls the
thread does other things, and has the lock all the time.  The lock is given back as often as it is
taken, unless the thread begins another eviction meanwhile, which overwrites the pointer to the
line.  And a thread does not wait for a lock that it has itself, unless `wait_evict` calls
`start_evict` for a line that is not `INVALID`.
-/
import Ting.Soft.Evictions

namespace Ting

open HostAction (ofThread ofAgent)

/-! ## Locks -/

namespace Pc

/-- The next step is `wLock` in `start_evict`. -/
def takesLock : Pc → Bool
  | evictLock _ => true
  | _ => false

/-- The next step is `wUnlock` in `wait_evict`. -/
def givesLock : Pc → Bool
  | evictEnd => true
  | _ => false

end Pc

namespace Thread

/-- The line whose lock the thread has for its eviction. -/
def evictHeld (t : Thread) : List LineRef :=
  if t.pc.locksEvict t.waitCur then [t.cur] else []

/-- The lines whose lock the thread has, for its eviction or for a copy. -/
def holds (t : Thread) : List LineRef := t.evictHeld ++ t.pc.locked.toList

/-- The line whose write lock the thread waits for. -/
def asks (t : Thread) : Option LineRef :=
  match t.pc with
  | .evictLock _ => some t.cur
  | .lineLock r _ => if t.excludes r then some r else none
  | _ => none

variable {t t' : Thread} {x : LineRef}

theorem mem_evictHeld : x ∈ t.evictHeld ↔ t.pc.locksEvict t.waitCur ∧ t.cur = x := by
  unfold evictHeld
  split
  next h => simp only [h, List.mem_singleton, true_and, eq_comm]
  next h => simp only [h, List.not_mem_nil, Bool.false_eq_true, false_and]

theorem mem_holds : x ∈ t.holds ↔
    (t.pc.locksEvict t.waitCur ∧ t.cur = x) ∨ t.pc.locked = some x := by
  rw [holds, List.mem_append, mem_evictHeld, Option.mem_toList]

theorem evictHeld_eq (hl : t'.pc.locksEvict t'.waitCur = t.pc.locksEvict t.waitCur)
    (hc : t.pc.locksEvict t.waitCur → t'.cur = t.cur) : t'.evictHeld = t.evictHeld := by
  unfold evictHeld
  rw [hl]
  split
  next h => rw [hc h]
  next => rfl

end Thread

namespace Host

variable {h h' : Host}

/-! ## Runs with a record -/

/-- An entry for the thread that acts, if it is at such a position. -/
def record (h : Host) (at' : Pc → Bool) (log : ThreadId → List LineRef) :
    HostAction → ThreadId → List LineRef
  | .thread τ =>
      if at' (h.threads τ).pc then Function.update log τ (log τ ++ [(h.threads τ).cur]) else log
  | _ => log

end Host

/-- A node, and the lines whose lock each thread has taken and given back for its evictions. -/
structure EvictLog where
  host : Host
  taken : ThreadId → List LineRef
  released : ThreadId → List LineRef

namespace EvictLog

def step (a : HostAction) (s : EvictLog) : Option EvictLog :=
  (s.host.step a).map fun h' =>
    { host := h'
      taken := s.host.record Pc.takesLock s.taken a
      released := s.host.record Pc.givesLock s.released a }

structure Init (apptNum : ℕ) (ds : List Addr) (s : EvictLog) : Prop where
  host : Host.Init apptNum ds s.host
  taken : ∀ τ, s.taken τ = []
  released : ∀ τ, s.released τ = []

end EvictLog

/-- A node with this record as a transition system. -/
def evictLocks (apptNum : ℕ) (ds : List Addr) : TransitionSystem EvictLog HostAction :=
  ⟨EvictLog.Init apptNum ds, EvictLog.step⟩

/-! ## Steps -/

namespace Host

variable {h h' : Host}

/-- What a step does to the locks of the evicted lines: nothing, or its thread takes the lock of the
line that it evicts, or gives it back. -/
inductive EvictHeldStep (h : Host) (a : HostAction) (h' : Host) : Prop
  | kept (hpos : ∀ τ, a = .thread τ → (h.threads τ).pc.takesLock = false ∧
        (h.threads τ).pc.givesLock = false)
      (hheld : ∀ τ, (h'.threads τ).evictHeld = (h.threads τ).evictHeld)
  | taken {τ : ThreadId} (ha : a = .thread τ) (hpc : (h.threads τ).pc = .evictLock false)
      (hnew : (h'.threads τ).evictHeld = [(h.threads τ).cur])
      (hother : ∀ σ, σ ≠ τ → (h'.threads σ).evictHeld = (h.threads σ).evictHeld)
  | released {τ : ThreadId} (ha : a = .thread τ) (hpc : (h.threads τ).pc = .evictEnd)
      (hnew : (h'.threads τ).evictHeld = [])
      (hother : ∀ σ, σ ≠ τ → (h'.threads σ).evictHeld = (h.threads σ).evictHeld)

/-- Nobody takes the lock of a line that a thread evicts. -/
theorem LinesHeld.evict_lock (hh : h.LinesHeld) {τ : ThreadId}
    (hτ : (h.threads τ).pc.locksEvict (h.threads τ).waitCur) :
    (h.lines (h.threads τ).cur).lock = 1 ∧
      ∀ σ, σ ≠ τ → (h.threads τ).cur ∉ (h.threads σ).holds := by
  have hone : 1 ≤ (h.threads τ).writesLine (h.threads τ).cur := by
    rw [Thread.writesLine, Total.ind_of (P := _ ∧ _) ⟨hτ, rfl⟩]
    exact Nat.le_add_left _ _
  obtain ⟨hw, -, hlock⟩ := (hh _).alone (le_trans hone (h.le_lineWriters τ _))
  refine ⟨hlock, fun σ hne hσ => ?_⟩
  rcases Thread.mem_holds.mp hσ with ⟨hσ, hcur⟩ | hσ
  · have hpair : _ ≤ h.lineWriters (h.threads τ).cur :=
      Total.pair_le_sum (fun τ' => (h.threads τ').writesLine (h.threads τ).cur) hne
    have htwo : 1 ≤ (h.threads σ).writesLine (h.threads τ).cur := by
      rw [Thread.writesLine, Total.ind_of (P := _ ∧ _) ⟨hσ, hcur⟩]
      exact Nat.le_add_left _ _
    omega
  · exact hh.not_evicting hσ hτ rfl

theorem Stepped.evictHeld {a : HostAction} (hs : Stepped h a h') (ho : h.OneEviction)
    (hw : h.WaitsWell) (hh : h.LinesHeld) : EvictHeldStep h a h' := by
  have hkeep : ∀ {τ : ThreadId} {t' : Thread} {pc : Pc}, (h.threads τ).pc = pc →
      (∀ σ, a = .thread σ → σ = τ) → pc.takesLock = false ∧ pc.givesLock = false →
      h'.threads = Function.update h.threads τ t' →
      t'.pc.locksEvict t'.waitCur = pc.locksEvict (h.threads τ).waitCur →
      (pc.locksEvict (h.threads τ).waitCur → t'.cur = (h.threads τ).cur) →
      EvictHeldStep h a h' := by
    rintro τ t' _ rfl ha hpos hth hl hc
    refine .kept (fun σ hσ => ?_) fun σ => ?_
    · rw [ha σ hσ]
      exact hpos
    · rw [hth]
      rcases eq_or_ne σ τ with rfl | hne
      · rw [Function.update_self]
        exact Thread.evictHeld_eq hl hc
      · rw [Function.update_of_ne hne]
  have hself : ∀ {τ : ThreadId}, ∀ σ, HostAction.thread τ = .thread σ → σ = τ := by
    rintro τ _ ⟨⟩
    rfl
  have hagent : h'.threads = h.threads → (∀ τ, a ≠ .thread τ) → EvictHeldStep h a h' := by
    intro hth ha
    exact .kept (fun τ hτ => absurd hτ (ha τ)) fun τ => by rw [hth]
  cases hs with
  | call hpc =>
      refine hkeep hpc nofun ⟨rfl, rfl⟩ rfl ?_ fun _ => rfl
      dsimp only
      split
      · split
        next hc => exact hc.symm
        next => rfl
      · rfl
  | beginEvict hpc hn =>
      have hno := ho _ hn
      refine hkeep hpc hself ⟨rfl, rfl⟩ rfl hno.symm fun hc => ?_
      cases hno.symm.trans hc
  | looked hpc => exact hkeep hpc hself ⟨rfl, rfl⟩ rfl (afterLookup_outside.evict _) fun _ => rfl
  | claim hpc =>
      rcases hpc with ⟨hpc, _⟩ | ⟨hpc, _⟩ <;>
        exact hkeep hpc hself ⟨rfl, rfl⟩ rfl rfl fun _ => rfl
  | casFail hpc =>
      rcases hpc with ⟨hpc, ⟨rfl, _⟩ | rfl⟩ | ⟨hpc, rfl⟩ <;>
        exact hkeep hpc hself ⟨rfl, rfl⟩ rfl rfl fun _ => rfl
  | unlock hpc => exact hkeep hpc hself ⟨rfl, rfl⟩ rfl (pc_outside.evict _) fun _ => rfl
  | scan hpc => exact hkeep hpc hself ⟨rfl, rfl⟩ rfl (scanSlot_outside.evict _) fun _ => rfl
  | insert hpc hi =>
      obtain ⟨t', hth, hnew, hwait, hcur, -⟩ := hi.outside
      refine hkeep hpc nofun ⟨rfl, rfl⟩ hth ?_ fun _ => hcur
      rw [hnew.evict, hwait]
      rfl
  | finish hpc hp =>
      refine hkeep hpc hself ⟨rfl, rfl⟩ rfl ?_ fun _ => rfl
      dsimp only
      split <;> rfl
  | bodyEnd hpc =>
      refine hkeep hpc hself ⟨rfl, rfl⟩ rfl ?_ fun _ => rfl
      dsimp only
      split
      next hc => exact (Bool.and_eq_true_iff.mp hc).2.symm
      next => exact loop_outside.evict _
  | @reply τ r kind hasData granted m hpc =>
      rcases onReply_cases (h.threads τ) r kind hasData
        granted (h.lines (h.threads τ).cur).tag m with
        ⟨pc, hk, rfl | rfl⟩ | ⟨hk, -⟩
      · refine hkeep hpc nofun ⟨rfl, rfl⟩ rfl ?_ fun _ => by rw [hk]
        rw [hk]
        exact replySwitch_outside.evict _
      · exact hkeep hpc nofun ⟨rfl, rfl⟩ rfl (by rw [hk]; rfl) fun _ => by rw [hk]
      · exact hkeep hpc nofun ⟨rfl, rfl⟩ rfl (by rw [hk, hpc]) fun _ => by rw [hk]
  | @evictDrop τ w hpc =>
      refine hkeep hpc hself ⟨rfl, rfl⟩ rfl ?_ fun _ => rfl
      cases w with
      | true => rfl
      | false => exact hw τ false (by rw [hpc]; rfl)
  | @evictLock τ w hpc hl =>
      cases w with
      | true =>
          -- `start_evict` has been called from `wait_evict`: the thread would wait for itself.
          have hlock := (hh.evict_lock (τ := τ) (by rw [hpc]; rfl)).1
          cases hl.symm.trans hlock
      | false =>
          refine .taken rfl hpc ?_ fun σ hne => ?_
          · rw [setThread_threads, Function.update_self]
            rfl
          · rw [setThread_threads, Function.update_of_ne hne]
            rfl
  | @evictSend τ w junk hpc =>
      refine hkeep hpc nofun ⟨rfl, rfl⟩ rfl ?_ fun _ => rfl
      cases w with
      | true => rfl
      | false => exact hw τ true (by rw [hpc]; rfl)
  | @unstash τ m hpc =>
      obtain ⟨pc, hk, hto⟩ := onEvictReply_cases { h.threads τ with stash := none }
        (h.lines (h.threads τ).cur).tag m
      refine hkeep hpc hself ⟨rfl, rfl⟩ rfl ?_ fun _ => by rw [hk]
      rw [hk]
      rcases hto with rfl | rfl | rfl | rfl
      · rfl
      · rfl
      · rfl
      · exact hw τ true (by rw [hpc]; rfl)
  | @evictReply τ m hpc =>
      obtain ⟨pc, hk, hto⟩ := onEvictReply_cases (h.threads τ) (h.lines (h.threads τ).cur).tag m
      refine hkeep hpc nofun ⟨rfl, rfl⟩ rfl ?_ fun _ => by rw [hk]
      rw [hk]
      rcases hto with rfl | rfl | rfl | rfl
      · rfl
      · rfl
      · rfl
      · exact hw τ true (by rw [hpc]; rfl)
  | evictEnd hpc =>
      refine .released rfl hpc ?_ fun σ hne => ?_
      · rw [setThread_threads, Function.update_self, Thread.evictHeld]
        simp only [loop_outside.evict, Bool.false_eq_true, if_false]
      · rw [setThread_threads, Function.update_of_ne hne]
        rfl
  | swallow | take | agentLock | agentSkip | agentFound | agentShadowSkip | agentLooked
  | agentObey | agentFault | agentUnlock => exact hagent rfl nofun
  | request hpc => exact hkeep hpc nofun ⟨rfl, rfl⟩ rfl rfl fun _ => rfl
  | noEvict hpc | evictInvalid hpc | evictClaim hpc | evictDiscard hpc | lockSet hpc | findSkip hpc
  | found hpc | shadowSkip hpc | lockSetW hpc | unlockSetW hpc | lineLock hpc | checked hpc
  | unchecked hpc | copy hpc | copied hpc | lineUnlock hpc | spun hpc | restored hpc
  | evictSpun hpc => exact hkeep hpc hself ⟨rfl, rfl⟩ rfl rfl fun _ => rfl

/-! ## A thread that waits for itself -/

/-- No line is moved by a thread whose eviction is outstanding, and a line that `wait_evict` calls
`start_evict` for is `INVALID`. -/
def Disciplined (h : Host) (a : HostAction) : Prop :=
  h.Finished a ∧ ∀ τ, a = .thread τ → (h.threads τ).pc = .evictTry true →
    (h.lines (h.threads τ).cur).status = .invalid

/-- No thread is at `wLock` in `start_evict` when `wait_evict` has called it. -/
def NoSelfWait (h : Host) : Prop :=
  ∀ τ, (h.threads τ).pc ≠ .evictLock true

theorem NoSelfWait.step {a : HostAction} (hn : h.NoSelfWait) (hs : Stepped h a h')
    (hok : h.Disciplined a) : h'.NoSelfWait := by
  have hup : ∀ {τ : ThreadId} {t' : Thread}, h'.threads = Function.update h.threads τ t' →
      t'.pc ≠ .evictLock true → h'.NoSelfWait := by
    intro τ t' hth ht
    rw [NoSelfWait, hth]
    exact (Function.forall_update_iff h.threads
      (p := fun _ t => Thread.pc t ≠ .evictLock true)).mpr ⟨ht, fun σ _ => hn σ⟩
  have hout : ∀ {τ : ThreadId} {t' : Thread}, h'.threads = Function.update h.threads τ t' →
      t'.pc.Outside → h'.NoSelfWait := by
    intro τ t' hth ht
    refine hup hth fun hpc => ?_
    cases (hpc ▸ ht.evict false : Pc.locksEvict false (.evictLock true) = false)
  cases hs with
  | call =>
      refine hup rfl ?_
      dsimp only
      split
      · split <;> exact nofun
      · exact nofun
  | @evictClaim τ w hpc hinv =>
      cases w with
      | true => exact absurd (hok.2 τ rfl hpc) hinv
      | false => exact hup rfl nofun
  | @evictDrop τ w hpc =>
      cases w <;> exact hup rfl nofun
  | @evictSend τ w junk hpc =>
      cases w <;> exact hup rfl nofun
  | looked => exact hout rfl afterLookup_outside
  | casFail hpc =>
      rcases hpc with ⟨_, ⟨rfl, _⟩ | rfl⟩ | ⟨_, rfl⟩ <;> exact hup rfl nofun
  | unlock => exact hout rfl pc_outside
  | scan => exact hout rfl scanSlot_outside
  | insert hpc hi =>
      obtain ⟨t', hth, hnew, -⟩ := hi.outside
      exact hout hth hnew
  | finish =>
      refine hup rfl ?_
      dsimp only
      split <;> exact nofun
  | bodyEnd =>
      refine hup rfl ?_
      dsimp only
      split
      · exact nofun
      · rcases loop_cases with hl | hl <;> rw [hl] <;> exact nofun
  | evictEnd => exact hout rfl loop_outside
  | @reply τ r kind hasData granted m hpc =>
      rcases onReply_cases (h.threads τ) r kind hasData
        granted (h.lines (h.threads τ).cur).tag m with
        ⟨pc, hk, rfl | rfl⟩ | ⟨hk, -⟩
      · exact hout rfl (by rw [hk]; exact replySwitch_outside)
      · exact hup rfl (by rw [hk]; exact nofun)
      · exact hup rfl (by rw [hk, hpc]; exact nofun)
  | unstash | evictReply =>
      obtain ⟨pc, hk, hto⟩ := onEvictReply_cases _ _ _
      refine hup rfl ?_
      rw [hk]
      rcases hto with rfl | rfl | rfl | rfl <;> exact nofun
  | swallow | take | agentLock | agentSkip | agentFound | agentShadowSkip | agentLooked
  | agentObey | agentFault | agentUnlock => exact hn
  | _ => exact hup rfl nofun

theorem noSelfWait {apptNum : ℕ} {ds : List Addr}
    (hr : (host apptNum ds).ReachableWhen Disciplined h) : h.NoSelfWait :=
  Host.invariantWhen (fun _ hi τ hpc => by rw [hi.pc τ] at hpc; cases hpc)
    (fun _ _ _ _ hok hn hs => hn.step hs hok) hr

/-- A thread does not wait for the lock of a line that it is inside already. -/
theorem NoSelfWait.asks (hn : h.NoSelfWait) (ho : h.Owned) {τ : ThreadId} {x : LineRef}
    (hx : (h.threads τ).asks = some x) : x ∉ (h.threads τ).holds := by
  intro hmem
  unfold Thread.asks at hx
  split at hx
  next w hpc =>
    cases w with
    | true => exact hn τ hpc
    | false =>
        rcases Thread.mem_holds.mp hmem with ⟨hl, -⟩ | hl
        · rw [hpc] at hl
          cases hl
        · rw [hpc] at hl
          cases hl
  next r hit hpc =>
    split at hx
    next hex =>
      cases hx
      rcases Thread.mem_holds.mp hmem with ⟨hl, rfl⟩ | hl
      · -- the line that a thread evicts is in the shadow set, where it takes the read lock
        rw [hpc] at hl
        have hwait : (h.threads τ).waitCur := hl
        have hphase : (h.threads τ).stake.cur = some ((h.threads τ).cur, .waiting) := by
          simp only [Thread.stake, hpc, Pc.phase, hwait, if_true, Option.map_some]
        have hshadow := ((ho.fits τ).cur _ _ hphase).1
        rw [Thread.excludes, hshadow, Bool.not_true, Bool.and_false] at hex
        cases hex
      · rw [hpc] at hl
        cases hl
    next => cases hx
  next => cases hx

end Host

/-! ## Runs -/

namespace EvictLog

open Host

variable {s s' : EvictLog} {apptNum : ℕ} {ds : List Addr} {ok : Host → HostAction → Prop}

/-- Without the record, the run is one of the node. -/
theorem reachable_host (hr : (evictLocks apptNum ds).ReachableWhen (fun s => ok s.host) s) :
    (Ting.host apptNum ds).ReachableWhen ok s.host := by
  induction hr with
  | init hi => exact .init hi.host
  | step _ hok hs ih =>
      obtain ⟨h', hh, rfl⟩ := Option.map_eq_some_iff.mp hs
      exact .step ih hok hh

/-- What has been taken and not given back is the lock that the thread has. -/
def Settled (s : EvictLog) : Prop :=
  ∀ τ, s.taken τ = s.released τ ++ (s.host.threads τ).evictHeld

theorem Settled.step {a : HostAction} (hp : s.Settled) (ho : s.host.OneEviction)
    (hw : s.host.WaitsWell) (hh : s.host.LinesHeld) (hs : s.step a = some s') : s'.Settled := by
  obtain ⟨h', hstep, rfl⟩ := Option.map_eq_some_iff.mp hs
  intro σ
  cases Stepped.evictHeld (.of_step hstep) ho hw hh with
  | kept hpos hheld =>
      have hlog : ∀ (at' : Pc → Bool) (log : ThreadId → List LineRef),
          (∀ τ, a = .thread τ → at' (s.host.threads τ).pc = false) →
          s.host.record at' log a = log := by
        intro at' log hno
        cases a with
        | thread τ => simp only [record, hno τ rfl, Bool.false_eq_true, if_false]
        | _ => rfl
      dsimp only
      rw [hlog _ _ fun τ hτ => (hpos τ hτ).1, hlog _ _ fun τ hτ => (hpos τ hτ).2, hheld σ]
      exact hp σ
  | @taken τ ha hpc hnew hother =>
      subst ha
      simp only [record, hpc, Pc.takesLock, Pc.givesLock, if_true, Bool.false_eq_true, if_false]
      rcases eq_or_ne σ τ with rfl | hne
      · have hold : (s.host.threads σ).evictHeld = [] := by
          rw [Thread.evictHeld, hpc]
          rfl
        rw [Function.update_self, hnew, hp σ, hold, List.append_nil]
      · rw [Function.update_of_ne hne, hother σ hne]
        exact hp σ
  | @released τ ha hpc hnew hother =>
      subst ha
      simp only [record, hpc, Pc.takesLock, Pc.givesLock, if_true, Bool.false_eq_true, if_false]
      rcases eq_or_ne σ τ with rfl | hne
      · have hold : (s.host.threads σ).evictHeld = [(s.host.threads σ).cur] := by
          rw [Thread.evictHeld, hpc]
          rfl
        rw [Function.update_self, hnew, hp σ, hold, List.append_nil]
      · rw [Function.update_of_ne hne, hother σ hne]
        exact hp σ

/-- At the end of `wait_evict` a thread has no such lock any more. -/
theorem evictHeld_of_evictEnd {τ : ThreadId} (hpc : (s.host.threads τ).pc = .evictEnd)
    (hs : s.step (.thread τ) = some s') : (s'.host.threads τ).evictHeld = [] := by
  obtain ⟨h', hstep, rfl⟩ := Option.map_eq_some_iff.mp hs
  simp only [Host.step, threadStep, hpc, Option.some.injEq] at hstep
  subst hstep
  dsimp only
  rw [setThread_threads, Function.update_self, Thread.evictHeld]
  simp only [loop_outside.evict, Bool.false_eq_true, if_false]

theorem settled (hr : (evictLocks apptNum ds).ReachableWhen (fun s => Finished s.host) s) :
    s.Settled := by
  refine hr.invariant (fun s hi τ => ?_) fun s a s' hr _ hp hs => ?_
  · rw [hi.taken τ, hi.released τ, Thread.evictHeld, hi.host.pc τ, hi.host.waitCur τ]
    rfl
  · have hhost := reachable_host hr
    exact hp.step (oneEviction hhost) (waitsWell hhost.reachable) (linesHeld hhost.reachable) hs

/-- In a disciplined run no thread waits for the write lock of a line that it is inside; the lock
of a line that is evicted has been taken by one thread that gives it back once, nobody else has it
meanwhile, and when `wait_evict` returns, all locks that were taken are given back. -/
theorem evict_locks_released
    (hr : (evictLocks apptNum ds).ReachableWhen (fun s => Disciplined s.host) s) :
    (∀ τ x, (s.host.threads τ).asks = some x → x ∉ (s.host.threads τ).holds) ∧
    (∀ τ, s.taken τ = s.released τ ++ (s.host.threads τ).evictHeld) ∧
    (∀ τ, ∀ x ∈ (s.host.threads τ).evictHeld, (s.host.lines x).lock = 1 ∧
      ∀ σ, σ ≠ τ → x ∉ (s.host.threads σ).holds) ∧
    ∀ τ s', (s.host.threads τ).pc = .evictEnd → s.step (.thread τ) = some s' →
      (s.host.threads τ).evictHeld = [(s.host.threads τ).cur] ∧ s'.taken τ = s'.released τ := by
  have hhost := reachable_host hr
  have hfin : ∀ {s}, (evictLocks apptNum ds).ReachableWhen (fun s => Disciplined s.host) s →
      (evictLocks apptNum ds).ReachableWhen (fun s => Finished s.host) s :=
    fun hr => hr.mono fun _ _ hok => hok.1
  refine ⟨fun τ x hx => ?_, settled (hfin hr), fun τ x hx => ?_, fun τ s' hpc hs => ?_⟩
  · exact (noSelfWait hhost).asks (owned hhost.reachable) hx
  · obtain ⟨hl, rfl⟩ := Thread.mem_evictHeld.mp hx
    exact (linesHeld hhost.reachable).evict_lock hl
  · have hok : Disciplined s.host (.thread τ) := by
      refine ⟨nofun, ?_⟩
      rintro σ ⟨⟩ hσ
      cases hpc.symm.trans hσ
    refine ⟨by rw [Thread.evictHeld, hpc]; rfl, ?_⟩
    rw [settled (hfin (.step hr hok hs)) τ, evictHeld_of_evictEnd hpc hs, List.append_nil]

/-- The record keeps no run of the node from being made. -/
theorem exists_record {h : Host} (hr : (Ting.host apptNum ds).ReachableWhen ok h) :
    ∃ s : EvictLog, s.host = h ∧
      (evictLocks apptNum ds).ReachableWhen (fun s => ok s.host) s := by
  induction hr with
  | @init h hi => exact ⟨⟨h, fun _ => [], fun _ => []⟩, rfl, .init ⟨hi, fun _ => rfl, fun _ => rfl⟩⟩
  | step _ hok hs ih =>
      obtain ⟨s, rfl, hr⟩ := ih
      exact ⟨_, rfl, .step hr hok (Option.map_eq_some_iff.mpr ⟨_, hs, rfl⟩)⟩

/-- The guard as a check that a run can evaluate. -/
def disciplinedCheck (h : Host) (a : HostAction) : Bool :=
  h.noEviction a && match a with
    | .thread τ => (h.threads τ).pc ≠ .evictTry true ||
        (h.lines (h.threads τ).cur).status = .invalid
    | _ => true

theorem disciplined_of_check (h : Host) (a : HostAction) (hc : disciplinedCheck h a) :
    Disciplined h a := by
  obtain ⟨hf, ht⟩ := Bool.and_eq_true_iff.mp hc
  refine ⟨finished_of_noEviction h a hf, ?_⟩
  rintro τ rfl hpc
  rcases Bool.or_eq_true_iff.mp ht with hn | hi
  · exact absurd hpc (of_decide_eq_true hn)
  · exact of_decide_eq_true hi

/-- Thread 0 asks for the eviction of block 5 and reads another block.  Then it waits. -/
def evictLine : List HostAction :=
  moveLine ++ ofThread 0 3 ++ .send 0 (.about .initDir ⟨0, 5⟩) :: missLine 0 ⟨0, 542497⟩ 6

/-- An agent invalidates the line; the eviction is refused, and needs no other request. -/
theorem evict_locks_released_invalid : ∃ s s' : EvictLog, s.step (.thread 0) = some s' ∧
    s.taken 0 = s.released 0 ++ [⟨true, 63045, 7⟩] ∧ s'.taken 0 = s'.released 0 := by
  obtain ⟨h, hh, hv⟩ := TransitionSystem.exists_reachableWhen
    (T := Ting.host 8 [1, 2, 3, 4, 5, 6, 7, 8, 9, 10, 11, 12, 13, 14, 15, 16])
    (f := fun h => ((h.threads 0).pc, (h.threads 0).cur)) (v := (.evictEnd, ⟨true, 63045, 7⟩))
    (evictLine ++ .take 0 (.about .dir2AgentWriteMissShared ⟨0, 5⟩) :: ofAgent 0 20 ++
      .receive 0 (.about .dir2AppMCheckFail ⟨0, 5⟩) :: ofThread 0 4) disciplined_of_check
    (start_init 0 8 [1, 2, 3, 4, 5, 6, 7, 8, 9, 10, 11, 12, 13, 14, 15, 16]) (by decide +kernel)
  obtain ⟨hpc, hcur⟩ := Prod.mk.inj hv
  obtain ⟨s, rfl, hr⟩ := exists_record hh
  obtain ⟨s', hs⟩ : ∃ s', s.step (.thread 0) = some s' := by
    simp only [EvictLog.step, Host.step, threadStep, hpc, Option.map_some, Option.some.injEq,
      exists_eq']
  obtain ⟨-, htaken, -, hend⟩ := evict_locks_released hr
  obtain ⟨hheld, hreleased⟩ := hend 0 s' hpc hs
  refine ⟨s, s', hs, ?_, hreleased⟩
  rw [htaken 0, hheld, hcur]

end EvictLog

namespace Host

/-- The eviction is refused for its own sake, and the thread waits for the lock that it has. -/
theorem evict_waits_for_itself : ¬ ∀ (apptNum : ℕ) (ds : List Addr) (h : Host),
    (host apptNum ds).Reachable h → ∀ τ x, (h.threads τ).asks = some x →
      x ∉ (h.threads τ).holds := by
  intro hall
  obtain ⟨h, hr, hv⟩ := TransitionSystem.exists_reachable
    (T := host 8 [1, 2, 3, 4, 5, 6, 7, 8, 9, 10, 11, 12, 13, 14, 15, 16])
    (f := fun h => ((h.threads 0).asks, (h.threads 0).holds))
    (v := (some ⟨true, 63045, 7⟩, [⟨true, 63045, 7⟩]))
    (EvictLog.evictLine ++ .receive 0 (.about .dir2AppMCheckFail ⟨0, 5⟩) :: ofThread 0 2)
    (start_init 0 8 [1, 2, 3, 4, 5, 6, 7, 8, 9, 10, 11, 12, 13, 14, 15, 16]) (by decide +kernel)
  obtain ⟨hasks, hholds⟩ := Prod.mk.inj hv
  refine hall _ _ h hr 0 _ hasks ?_
  rw [hholds]
  exact List.mem_singleton_self _

end Host

end Ting
