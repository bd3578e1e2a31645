/-
# `Ting.Soft.LastBuffer` — how many buffers a thread has left

`newLine` takes a buffer when it fills an empty slot, and another one when it moves a line to the
shadow set; that line's buffer comes back when its eviction is finished.  So a thread that has
filled as many empty slots as it was given buffers has none left to begin an eviction with, and
`newLine` begins one all the same.

`Counted` is a node with its history: how often each thread has filled an empty slot, moved a line,
and got a buffer back.
-/
import Ting.Soft.Buffers

open Total

namespace Ting

open HostAction (ofThread)

/-! ## What takes a buffer, and what gives one back -/

/-- `start_evict` or `wait_evict` is about to push the buffer of an evicted line. -/
def Pc.discards : Pc → Bool
  | .evictDiscard _ => true
  | _ => false

namespace Host

/-- `newLine` is about to fill an empty slot. -/
def fillsSlot (h : Host) (τ : ThreadId) : Bool :=
  match (h.threads τ).pc with
  | .scan [] false (some _) _ => !(h.threads τ).stack.isEmpty
  | _ => false

/-- `newLine` is about to move a line to the shadow set. -/
def movesLine (h : Host) (τ : ThreadId) : Bool :=
  match (h.threads τ).pc with
  | .scan [] false available (some s) => (available.isNone || (h.threads τ).stack.isEmpty) &&
      (h.lines ⟨false, (h.threads τ).set, s⟩).status ≠ .invalid
  | _ => false

/-- `newLine` takes the top of a stack only if the stack has one, in either branch. -/
def HasTop (h : Host) (a : HostAction) : Prop :=
  ∀ τ ptr, a = .insert τ ptr → h.fillsSlot τ ∨ h.movesLine τ → (h.threads τ).stack ≠ []

variable {h h' : Host} {τ : ThreadId}

theorem movesLine_iff : h.movesLine τ = true ↔ h.Moves τ := by
  unfold movesLine Moves
  split
  next available s hpc =>
    rw [Bool.and_eq_true, Bool.or_eq_true, Option.isNone_iff_eq_none, List.isEmpty_iff,
      decide_eq_true_eq, hpc]
    constructor
    · rintro ⟨ha, hs⟩
      exact ⟨available, s, rfl, ha, hs⟩
    · rintro ⟨_, _, heq, ha, hs⟩
      cases heq
      exact ⟨ha, hs⟩
  next hno =>
    refine iff_of_false Bool.false_ne_true ?_
    rintro ⟨available, s, hpc, -⟩
    exact hno available s hpc

theorem fillsSlot_iff : h.fillsSlot τ = true ↔
    ∃ s eviction, (h.threads τ).pc = .scan [] false (some s) eviction ∧ (h.threads τ).stack ≠ [] := by
  unfold fillsSlot
  split
  next s eviction hpc =>
    rw [Bool.not_eq_true', Bool.eq_false_iff, ne_eq, List.isEmpty_iff, hpc]
    exact ⟨fun hs => ⟨s, eviction, rfl, hs⟩, fun ⟨_, _, _, hs⟩ => hs⟩
  next hno =>
    refine iff_of_false Bool.false_ne_true ?_
    rintro ⟨s, eviction, hpc, -⟩
    exact hno s eviction hpc

/-- A slot is only filled when the stack has a top. -/
theorem hasTop_iff_stocked {a : HostAction} : h.HasTop a ↔ h.Stocked a := by
  refine forall_congr' fun τ => forall_congr' fun ptr => imp_congr_right fun _ => ?_
  rw [movesLine_iff]
  constructor
  · exact fun htop hm => htop (.inr hm)
  · rintro hstock (hf | hm)
    · obtain ⟨_, _, -, hs⟩ := fillsSlot_iff.mp hf
      exact hs
    · exact hstock hm

/-- A thread that makes a step of its own keeps its buffers, but where it gets one back. -/
theorem Stepped.stack_thread (hs : Stepped h (.thread τ) h') : (h'.threads τ).stack.length =
    (h.threads τ).stack.length + if (h.threads τ).pc.discards then 1 else 0 := by
  have hself : ∀ {k : Host} {t' : Thread}, (k.setThread τ t').threads τ = t' := by
    intro k t'
    rw [setThread_threads, Function.update_self]
  cases hs with
  | evictDiscard hpc =>
    rw [hself, hpc]
    rfl
  | claim hpc =>
    rw [hself]
    rcases hpc with ⟨hpc, -⟩ | ⟨hpc, -⟩
    all_goals
      rw [hpc]
      rfl
  | casFail hpc =>
    rw [hself]
    rcases hpc with ⟨hpc, -⟩ | ⟨hpc, -⟩
    all_goals
      rw [hpc]
      rfl
  | beginEvict hpc | noEvict hpc | evictInvalid hpc | evictClaim hpc | evictDrop hpc | evictLock hpc
  | lockSet hpc | findSkip hpc | found hpc | shadowSkip hpc | looked hpc | unlock hpc | lockSetW hpc
  | scan hpc | unlockSetW hpc | lineLock hpc | checked hpc | unchecked hpc | copy hpc | copied hpc
  | lineUnlock hpc | spun hpc | finish hpc | bodyEnd hpc | unstash hpc | restored hpc
  | evictSpun hpc | evictEnd hpc =>
    rw [hself, hpc]
    rfl

/-- A line is moved for a buffer, when there is one. -/
theorem replaceLine_stack {ptr : Addr} {available : Option Slot} {s : Slot}
    (hpc : (h.threads τ).pc = .scan [] false available (some s))
    (ha : available = none ∨ (h.threads τ).stack = [])
    (hok : h.Moves τ → (h.threads τ).stack ≠ []) :
    ((h.replaceLine τ ptr s).threads τ).stack.length + (if h.movesLine τ then 1 else 0) =
      (h.threads τ).stack.length := by
  unfold replaceLine
  extract_lets t r r' line
  split
  next hinv =>
    have hno : h.movesLine τ = false := by
      rw [Bool.eq_false_iff, ne_eq, movesLine_iff]
      rintro ⟨_, _, heq, -, hst⟩
      cases hpc.symm.trans heq
      exact hst hinv
    rw [setThread_threads, Function.update_self, hno]
    rfl
  next hinv =>
    have hmoves : h.Moves τ := ⟨available, s, hpc, ha, hinv⟩
    obtain ⟨d, ds, hstack⟩ := List.exists_cons_of_ne_nil (hok hmoves)
    rw [setThread_threads, Function.update_self, movesLine_iff.mpr hmoves]
    show t.stack.tail.length + 1 = t.stack.length
    rw [show t.stack = d :: ds from hstack]
    rfl

/-- `newLine` takes a buffer where it fills a slot, and where it moves a line. -/
theorem newLine_stack {ptr : Addr} {exist : Bool} {available eviction : Option Slot}
    (hpc : (h.threads τ).pc = .scan [] exist available eviction)
    (hok : h.Moves τ → (h.threads τ).stack ≠ []) :
    ((h.newLine τ ptr exist available eviction).threads τ).stack.length +
      (if h.fillsSlot τ then 1 else 0) + (if h.movesLine τ then 1 else 0) =
        (h.threads τ).stack.length := by
  unfold newLine
  split
  next s d ds hstack =>
    have hf : h.fillsSlot τ = true := fillsSlot_iff.mpr ⟨s, _, hpc, by
      rw [hstack]
      exact List.cons_ne_nil d ds⟩
    have hm : h.movesLine τ = false := by
      rw [Bool.eq_false_iff, ne_eq, movesLine_iff]
      rintro ⟨_, _, heq, hn | hn, -⟩
      · cases hpc.symm.trans heq
        cases hn
      · rw [hstack] at hn
        cases hn
    rw [setThread_threads, Function.update_self, hf, hm, hstack]
    rfl
  next s hno =>
    rename_i available _ _ _ _
    have ha : available = none ∨ (h.threads τ).stack = [] := by
      cases available with
      | none => exact .inl rfl
      | some i =>
        cases hstack : (h.threads τ).stack with
        | nil => exact .inr rfl
        | cons d ds => exact (hno i d ds rfl hstack).elim
    have hf : h.fillsSlot τ = false := by
      rw [Bool.eq_false_iff, ne_eq, fillsSlot_iff]
      rintro ⟨_, _, heq, hs⟩
      cases hpc.symm.trans heq
      rcases ha with ha | ha
      · cases ha
      · exact hs ha
    rw [hf]
    exact replaceLine_stack hpc ha hok
  next hevict hfill =>
    have hf : h.fillsSlot τ = false := by
      rw [Bool.eq_false_iff, ne_eq, fillsSlot_iff]
      rintro ⟨s, e, heq, hs⟩
      cases hpc.symm.trans heq
      obtain ⟨d, ds, hstack⟩ := List.exists_cons_of_ne_nil hs
      exact hfill s d ds rfl rfl hstack
    have hm : h.movesLine τ = false := by
      rw [Bool.eq_false_iff, ne_eq, movesLine_iff]
      rintro ⟨_, s, heq, -⟩
      cases hpc.symm.trans heq
      exact hevict s rfl rfl
    rw [setThread_threads, Function.update_self, hf, hm]
    rfl

/-- Whatever else happens leaves the stacks alone. -/
theorem Stepped.stack_other {a : HostAction} (hs : Stepped h a h') (ht : ∀ σ, a ≠ .thread σ)
    (hi : ∀ σ ptr, a ≠ .insert σ ptr) (τ : ThreadId) :
    (h'.threads τ).stack = (h.threads τ).stack := by
  have hset : ∀ {k : Host} {t' : Thread} {σ : ThreadId}, k.threads = h.threads →
      t'.stack = (h.threads σ).stack → ((k.setThread σ t').threads τ).stack = (h.threads τ).stack := by
    intro k t' σ hk hstack
    rw [setThread_threads, hk]
    rcases eq_or_ne τ σ with rfl | hne
    · rw [Function.update_self, hstack]
    · rw [Function.update_of_ne hne]
  cases hs with
  | call | evictSend | request => exact hset rfl rfl
  | @evictReply σ m => exact hset rfl rfl
  | @reply σ r kind hasData granted m =>
    refine hset rfl ?_
    rcases onReply_cases (h.threads σ) r kind hasData granted (h.lines (h.threads σ).cur).tag m with
      ⟨_, hk, _⟩ | ⟨hk, _⟩
    all_goals rw [hk]
  | swallow | take | agentLock | agentSkip | agentFound | agentShadowSkip | agentLooked | agentObey
  | agentFault | agentUnlock => rfl
  | insert => exact absurd rfl (hi _ _)
  | _ => exact absurd rfl (ht _)

end Host

/-! ## A node with its history -/

/-- A node, and how often each thread has filled an empty slot, moved a line to the shadow set and
got a buffer back. -/
structure Counted where
  host : Host
  filled : ThreadId → ℕ
  moved : ThreadId → ℕ
  returned : ThreadId → ℕ

namespace Counted

/-- One more for `τ`, if so. -/
def bump (f : ThreadId → ℕ) (τ : ThreadId) (b : Bool) : ThreadId → ℕ :=
  Function.update f τ (f τ + if b then 1 else 0)

/-- A step of the node, written into the history. -/
def step (a : HostAction) (c : Counted) : Option Counted :=
  (c.host.step a).map fun h =>
    match a with
    | .insert τ _ => { c with
        host := h
        filled := bump c.filled τ (c.host.fillsSlot τ)
        moved := bump c.moved τ (c.host.movesLine τ) }
    | .thread τ => { c with
        host := h
        returned := bump c.returned τ (c.host.threads τ).pc.discards }
    | _ => { c with host := h }

/-- A node and its history, from `initLine` on. -/
def system (apptNum : ℕ) (ds : List Addr) : TransitionSystem Counted HostAction where
  init c := Host.Init apptNum ds c.host ∧ ∀ τ, c.filled τ = 0 ∧ c.moved τ = 0 ∧ c.returned τ = 0
  step := step

/-- The number of buffers that `initLine` gives a thread. -/
def given (apptNum : ℕ) (ds : List Addr) (τ : ThreadId) : ℕ :=
  (Host.deal apptNum 0 ds (fun _ => []) τ).length

/-- `newLine` moves a line only for a thread that has filled fewer empty slots than it was given
buffers, less one for every eviction that it has begun and not finished. -/
def Afforded (apptNum : ℕ) (ds : List Addr) (c : Counted) (a : HostAction) : Prop :=
  ∀ τ ptr, a = .insert τ ptr → c.host.Moves τ →
    c.filled τ + c.moved τ < given apptNum ds τ + c.returned τ

/-- Every buffer of a thread is in its stack, or in a slot that it has filled, or it waits for the
one that an eviction gives back. -/
def Balanced (apptNum : ℕ) (ds : List Addr) (c : Counted) : Prop :=
  ∀ τ, (c.host.threads τ).stack.length + c.filled τ + c.moved τ =
    given apptNum ds τ + c.returned τ

variable {apptNum : ℕ} {ds : List Addr} {c c' : Counted} {a : HostAction} {τ : ThreadId}

/-- While the books balance, a thread has a buffer to move a line with if and only if it can
afford it. -/
theorem Balanced.stocked_iff (hb : c.Balanced apptNum ds) :
    c.host.Stocked a ↔ c.Afforded apptNum ds a := by
  refine forall_congr' fun τ => forall_congr' fun ptr => imp_congr_right fun _ =>
    imp_congr_right fun _ => ?_
  have hτ := hb τ
  rw [← List.length_pos_iff]
  omega

theorem Balanced.step (hb : c.Balanced apptNum ds) (hok : c.Afforded apptNum ds a)
    (hs : Counted.step a c = some c') : c'.Balanced apptNum ds := by
  obtain ⟨h, hh, rfl⟩ := Option.map_eq_some_iff.mp hs
  have hstep := Host.Stepped.of_step hh
  have hstock := hb.stocked_iff.mpr hok
  intro σ
  have hσ := hb σ
  cases a with
  | insert τ ptr =>
    rcases eq_or_ne σ τ with rfl | hne
    · have hstack : (h.threads σ).stack.length + (if c.host.fillsSlot σ then 1 else 0) +
          (if c.host.movesLine σ then 1 else 0) = (c.host.threads σ).stack.length := by
        simp only [Host.step] at hh
        split at hh
        next hpc =>
          obtain rfl := Option.some.inj hh
          exact Host.newLine_stack hpc (hstock σ ptr rfl)
        next => cases hh
      simp only [bump, Function.update_self]
      omega
    · have hstack := hstep.threads_other (τ := σ) (fun k hk => by cases hk; exact hne.symm)
      simp only [bump, Function.update_of_ne hne, hstack]
      exact hσ
  | thread τ =>
    rcases eq_or_ne σ τ with rfl | hne
    · have hstack := hstep.stack_thread
      simp only [bump, Function.update_self]
      omega
    · have hstack := hstep.threads_other (τ := σ) (fun k hk => by cases hk; exact hne.symm)
      simp only [bump, Function.update_of_ne hne, hstack]
      exact hσ
  | call | send | receive | take | agent =>
    have hstack := hstep.stack_other (fun _ h => by cases h) (fun _ _ h => by cases h) σ
    simp only [hstack]
    exact hσ

theorem balanced (hr : (system apptNum ds).ReachableWhen (Afforded apptNum ds) c) :
    c.Balanced apptNum ds := by
  refine TransitionSystem.ReachableWhen.invariant (P := Balanced apptNum ds) (fun c h0 τ => ?_)
    (fun _ _ _ _ hok hb hs => hb.step hok hs) hr
  obtain ⟨hinit, hzero⟩ := h0
  rw [hinit.stack τ, (hzero τ).1, (hzero τ).2.1, (hzero τ).2.2, given]

/-- In every run in which lines are only moved when that can be afforded, the next step takes no
buffer from an empty stack if and only if it keeps to that, too. -/
theorem newLine_has_buffer (hr : (system apptNum ds).ReachableWhen (Afforded apptNum ds) c)
    (a : HostAction) : c.host.HasTop a ↔ c.Afforded apptNum ds a :=
  Host.hasTop_iff_stocked.trans (balanced hr).stocked_iff

/-- The condition as a check that a run can evaluate. -/
def affords (apptNum : ℕ) (ds : List Addr) (c : Counted) : HostAction → Bool
  | .insert τ _ => !c.host.movesLine τ || c.filled τ + c.moved τ < given apptNum ds τ + c.returned τ
  | _ => true

theorem afforded_of_affords (apptNum : ℕ) (ds : List Addr) (c : Counted) (a : HostAction)
    (h : c.affords apptNum ds a) : c.Afforded apptNum ds a := by
  rintro τ ptr rfl hm
  rw [affords, Host.movesLine_iff.mpr hm] at h
  exact of_decide_eq_true h

/-- A thread puts its only buffer into a line, reads it to the end and misses again in the same
set. -/
def missTwice : List HostAction :=
  .call 0 false false ⟨0, 5⟩ :: ofThread 0 30 ++ .insert 0 0 :: ofThread 0 23 ++
    .send 0 (.about .initDir ⟨0, 5⟩) ::
    .receive 0 (.about .dir2AppReadMissAckdata ⟨0, 5⟩) :: ofThread 0 7 ++
    .call 0 false false ⟨0, 507⟩ :: ofThread 0 30

/-- It could afford the first line, and not the second. -/
theorem newLine_has_buffer_once : ∃ c : Counted, c.filled 0 = 1 ∧ c.host.movesLine 0 = true ∧
    ¬ c.host.HasTop (.insert 0 1) := by
  obtain ⟨c, hr, hv⟩ := TransitionSystem.exists_reachableWhen (T := system 1 [1])
    (f := fun c => (c.host.movesLine 0, c.filled 0, c.moved 0, c.returned 0)) (v := (true, 1, 0, 0))
    missTwice (afforded_of_affords 1 [1]) (s := ⟨Host.start 0 1 [1], fun _ => 0, fun _ => 0, fun _ => 0⟩)
    ⟨Host.start_init 0 1 [1], fun _ => ⟨rfl, rfl, rfl⟩⟩ (by decide +kernel)
  obtain ⟨hm, hv⟩ := Prod.mk.inj hv
  obtain ⟨hf, hv⟩ := Prod.mk.inj hv
  obtain ⟨hmoved, hret⟩ := Prod.mk.inj hv
  refine ⟨c, hf, hm, fun htop => ?_⟩
  have hlt := (newLine_has_buffer hr (.insert 0 1)).mp htop 0 1 rfl (Host.movesLine_iff.mp hm)
  rw [hf, hmoved, hret] at hlt
  exact absurd hlt (by decide)

end Counted

namespace Host

/-- With one buffer for each thread, `newLine` takes the top of an empty stack to begin an
eviction. -/
theorem top_of_empty : ¬ ∀ (apptNum : ℕ) (ds : List Addr) (h : Host) (a : HostAction),
    (∀ τ : ThreadId, τ.val < apptNum → 1 ≤ Counted.given apptNum ds τ) →
      (host apptNum ds).Reachable h → h.HasTop a := by
  intro hall
  obtain ⟨h, hr, hv⟩ := TransitionSystem.exists_reachable (T := host 1 [1])
    (f := fun h => (h.movesLine 0, (h.threads 0).stack)) (v := (true, []))
    Counted.missTwice (start_init 0 1 [1]) (by decide +kernel)
  obtain ⟨hm, hs⟩ := Prod.mk.inj hv
  exact hall 1 [1] h (.insert 0 0) (by decide) hr 0 0 rfl (.inr hm) hs

end Host

end Ting
