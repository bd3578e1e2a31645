/-
# `Ting.Hls.FirstMessage` — the directory before the first message

Until a message arrives at a directory (`Begun`), its stages only initialise entries, and
`dirCtrlHLS_from_net` only reads the completions of that.  The lock position of such a completion is
whatever the register was left with; as long as it names a slot at all, the slot is free, and the
release does no harm (`Clear.harmless`).

The entries a directory begins with give the blocks their places, and no message moves them.
-/
import Ting.Hls.AtomicDir

namespace Ting

open Relation WriteQueue

/-! ## The stages -/

namespace DirPipeline

variable {s s' : DirPipeline} {a : Action}

/-- What the memory and its ports leave alone. -/
structure Aside (s s' : DirPipeline) : Prop where
  ctrlMsgIn : s'.ctrlMsgIn = s.ctrlMsgIn
  initFlag : s'.regInitFlag = s.regInitFlag
  retryFlag : s'.regRetryFlag = s.regRetryFlag
  gbIndexArr : s'.regGbIndexArr = s.regGbIndexArr
  acquired : s'.acquired = s.acquired
  dirDataInit : s'.stage.dirDataInit = s.stage.dirDataInit
  ctrlMsgWOut : s'.stage.ctrlMsgWOut = s.stage.ctrlMsgWOut

/-- What a step does to the rest. -/
theorem step_cases (hs : s.step a = some s') :
    (∃ m, a = .arrive m ∧ m.mtype.toDir ∧ s' = { s with ctrlMsgIn := s.ctrlMsgIn ++ [m] }) ∨
    (∃ x, a = .init x ∧
      s' = { s with stage := { s.stage with dirDataInit := s.stage.dirDataInit ++ [x] } }) ∨
    (a = .fromNet ∧ s' = s.dirCtrlFromNet) ∨
    (∃ u, a = .toNet u ∧ s' = { s with stage := s.stage.tick u }) ∨
    s.commits a = none ∧ s.Aside s' := by
  cases a with
  | arrive m =>
      obtain ⟨hm, hs⟩ := Option.ite_none_right_eq_some.mp hs
      cases hs
      exact .inl ⟨m, rfl, hm, rfl⟩
  | init x =>
      cases hs
      exact .inr (.inl ⟨x, rfl, rfl⟩)
  | fromNet =>
      cases hs
      exact .inr (.inr (.inl ⟨rfl, rfl⟩))
  | toNet u =>
      cases hs
      exact .inr (.inr (.inr (.inl ⟨u, rfl, rfl⟩)))
  | ar =>
      cases hs
      refine .inr (.inr (.inr (.inr ⟨rfl, ?_⟩)))
      unfold ddrInstAr
      split <;> constructor <;> rfl
  | read =>
      cases hs
      refine .inr (.inr (.inr (.inr ⟨rfl, ?_⟩)))
      unfold ddrRead
      split <;> constructor <;> rfl
  | r =>
      cases hs
      refine .inr (.inr (.inr (.inr ⟨rfl, ?_⟩)))
      unfold ddrInstR
      split
      next => split <;> constructor <;> rfl
      next => constructor <;> rfl
  | awW =>
      cases hs
      refine .inr (.inr (.inr (.inr ⟨rfl, ?_⟩)))
      unfold ddrInstAwW
      split
      next => split <;> constructor <;> rfl
      next => constructor <;> rfl
  | write bid =>
      cases hs
      refine .inr (.inr (.inr (.inr ⟨rfl, ?_⟩)))
      unfold ddrWrite
      split <;> constructor <;> rfl
  | b =>
      cases hs
      refine .inr (.inr (.inr (.inr ⟨rfl, ?_⟩)))
      unfold ddrInstB
      split <;> constructor <;> rfl

theorem Aside.begun (h : s.Aside s') : s'.Begun ↔ s.Begun := by
  unfold Begun
  rw [h.acquired, h.retryFlag, h.ctrlMsgIn]

theorem Init.not_begun (h : s.Init) : ¬ s.Begun := by
  rintro (hb | hb | hb)
  · exact hb h.acquired
  · rw [h.retryFlag] at hb
    cases hb
  · exact hb h.ctrlMsgIn

/-- A message that asks for its lock either has it or waits for it. -/
theorem lock_begun (s : DirPipeline) (m : CtrlMsg) : (s.lock m).Begun := by
  unfold lock
  split
  next => exact .inr (.inl rfl)
  next => exact .inl (List.append_ne_nil_of_right_ne_nil _ (List.cons_ne_nil _ _))

/-- Until a message arrives, `dirCtrlHLS_from_net` only reads completions. -/
theorem dirCtrlFromNet_of_not_begun (hb : ¬ s.Begun) :
    s.dirCtrlFromNet = { s with regGbIndexArr := fun _ => freeSlot, regInitFlag := false } ∨
      s.regInitFlag = false ∧
        (s.dirCtrlFromNet = s.fromNetAck ∨ s.dirCtrlFromNet = { s with regSourceFlag := true }) := by
  obtain ⟨-, hb⟩ := not_or.mp hb
  obtain ⟨hretry, hin⟩ := not_or.mp hb
  unfold dirCtrlFromNet
  split
  next => exact .inl rfl
  next hinit =>
    refine .inr ⟨Bool.not_eq_true _ |>.mp hinit, ?_⟩
    split
    next => exact .inl rfl
    next =>
      refine .inr ?_
      rw [fromNetMsg, if_neg hretry, not_not.mp hin]

/-- A tick that reads a completion. -/
theorem fromNetAck_aside (s : DirPipeline) :
    (s.fromNetAck.Begun ↔ s.Begun) ∧ s.fromNetAck.regInitFlag = s.regInitFlag ∧
      s.fromNetAck.stage.dirDataInit = s.stage.dirDataInit ∧
      (∀ m ∈ s.fromNetAck.stage.ctrlMsgWOut, m ∈ s.stage.ctrlMsgWOut) ∧
      ∀ b, s.regGbIndexArr b = freeSlot → s.fromNetAck.regGbIndexArr b = freeSlot := by
  unfold fromNetAck
  split
  next k ks m ms hA hW =>
    have hsub : ∀ m' ∈ ms, m' ∈ s.stage.ctrlMsgWOut := fun m' hm' => hW ▸ List.mem_cons_of_mem m hm'
    unfold release
    dsimp only
    split
    next =>
      refine ⟨.rfl, rfl, rfl, hsub, fun b hb => ?_⟩
      show Function.update s.regGbIndexArr m.bucketId freeSlot b = _
      rw [Function.update_apply, hb, ite_self]
    next => exact ⟨.rfl, rfl, rfl, hsub, fun _ hb => hb⟩
  next => exact ⟨.rfl, rfl, rfl, fun _ hm => hm, fun _ hb => hb⟩

/-- `dirCtrlHLS_from_net` initialises no entry. -/
theorem dirCtrlFromNet_aside (s : DirPipeline) :
    (s.dirCtrlFromNet.Begun ↔ s.Begun) ∧
      s.dirCtrlFromNet.stage.dirDataInit = s.stage.dirDataInit ∧
      ∀ m ∈ s.dirCtrlFromNet.stage.ctrlMsgWOut, m ∈ s.stage.ctrlMsgWOut := by
  obtain ⟨hbegun, -, hinit, hsub, -⟩ := s.fromNetAck_aside
  have hlock : ∀ (t : DirPipeline) (m : CtrlMsg), (t.lock m).stage.dirDataInit = t.stage.dirDataInit ∧
      (t.lock m).stage.ctrlMsgWOut = t.stage.ctrlMsgWOut := by
    intro t m
    unfold lock
    split <;> exact ⟨rfl, rfl⟩
  unfold dirCtrlFromNet
  split
  next => exact ⟨.rfl, rfl, fun _ hm => hm⟩
  next =>
    split
    next => exact ⟨hbegun, hinit, hsub⟩
    next =>
      unfold fromNetMsg
      split
      next hr =>
        obtain ⟨hd, hW⟩ := hlock { s with regSourceFlag := true } s.regRetryCtrlMsg
        exact ⟨iff_of_true (lock_begun _ _) (.inr (.inl hr)), hd, fun m hm => hW ▸ hm⟩
      next =>
        split
        next m ms hm =>
          obtain ⟨hd, hW⟩ := hlock { s with regSourceFlag := true, ctrlMsgIn := ms } m
          refine ⟨iff_of_true (lock_begun _ _) (.inr (.inr ?_)), hd, fun m hm => hW ▸ hm⟩
          rw [hm]
          exact List.cons_ne_nil m ms
        next => exact ⟨.rfl, rfl, fun _ hm => hm⟩

/-- Only the arrival of a message begins. -/
theorem begun_step (hs : s.step a = some s') : s'.Begun ↔ s.Begun ∨ ∃ m, a = .arrive m := by
  obtain ⟨m, rfl, -, rfl⟩ | ⟨x, rfl, rfl⟩ | ⟨rfl, rfl⟩ | ⟨u, rfl, rfl⟩ | ⟨hc, ha⟩ := step_cases hs
  · exact iff_of_true (.inr (.inr (List.append_ne_nil_of_right_ne_nil _ (List.cons_ne_nil m []))))
      (.inr ⟨m, rfl⟩)
  · exact (or_iff_left (by rintro ⟨_, ⟨⟩⟩)).symm
  · exact s.dirCtrlFromNet_aside.1.trans (or_iff_left (by rintro ⟨_, ⟨⟩⟩)).symm
  · exact (or_iff_left (by rintro ⟨_, ⟨⟩⟩)).symm
  · refine ha.begun.trans (or_iff_left ?_).symm
    rintro ⟨m, rfl⟩
    cases hc

/-- The completions of initialised entries name a slot that there is, and no lock is taken before
the first message. -/
structure Clear (s : DirPipeline) : Prop where
  slots : ∀ m ∈ s.stage.ctrlMsgWOut, m.mtype = .initDir → m.lockPosition.toNat < lockBktSize
  free : ¬ s.Begun → s.regInitFlag = false → ∀ b, s.regGbIndexArr b = freeSlot

theorem Clear.of_init (h : s.Init) : s.Clear where
  slots := by
    rw [h.ctrlMsgWOut]
    rintro _ ⟨⟩
  free _ hi := by
    rw [h.initFlag] at hi
    cases hi

/-- What `dirCtrlHLS_to_net` sends to memory: an `INIT_DIR` message only if an entry is being
initialised. -/
theorem tick_inits (hl : Locks s) (u : Uninit) :
    (∃ x xs, s.stage.dirDataInit = x :: xs ∧ (s.stage.tick u).dirDataInit = xs ∧
      s.commits (.toNet u) = some (.init (dirDataToDirDataE x u.agentClineAddr)) ∧
      (s.stage.tick u).ctrlMsgWOut = s.stage.ctrlMsgWOut ++ [initDirMsg x u.ctrlMsg]) ∨
    s.stage.dirDataInit = [] ∧ (s.stage.tick u).dirDataInit = [] ∧
      (∀ b, s.commits (.toNet u) = some b → b = .serve ∨ b = .copy) ∧
      ∀ m ∈ (s.stage.tick u).ctrlMsgWOut, m.mtype = .initDir → m ∈ s.stage.ctrlMsgWOut := by
  rcases s.toNet_cases u with
    ⟨x, xs, hx, htick, hc⟩ |
    ⟨hx, ⟨-, htick, hc⟩ | ⟨m, ms, e, es, -, hm, -, htick, hc⟩ | ⟨htick, hc⟩⟩
  · exact .inl ⟨x, xs, hx, congrArg DirStage.dirDataInit htick, hc,
      congrArg DirStage.ctrlMsgWOut htick⟩
  · rw [htick, hc]
    refine .inr ⟨hx, hx, fun b hb => .inr ?_, fun _ hm _ => hm⟩
    exact (Option.some.inj hb).symm
  · rw [htick, hc]
    refine .inr ⟨hx, hx, fun b hb => .inl (Option.some.inj hb).symm, fun m' hm' hinit => ?_⟩
    rcases List.mem_append.mp hm' with hm' | hm'
    · exact hm'
    · rw [List.mem_singleton.mp hm'] at hinit
      have hto := hl.read m (hm ▸ List.mem_cons_self)
      exact (((DirCase.of_transaction s.stage.regs m e).ctrlMsgW hto).2 hinit).elim
  · rw [htick, hc]
    exact .inr ⟨hx, hx, by rintro b ⟨⟩, fun _ hm _ => hm⟩

/-- Every step. -/
theorem Clear.step (h : s.Clear) (hl : Locks s)
    (hu : ∀ u, a = .toNet u → u.ctrlMsg.lockPosition.toNat < lockBktSize)
    (hs : s.step a = some s') : s'.Clear := by
  have hkeep : ∀ {t : DirPipeline}, (t.Begun ↔ s.Begun) → t.regInitFlag = s.regInitFlag →
      t.regGbIndexArr = s.regGbIndexArr →
      (∀ m ∈ t.stage.ctrlMsgWOut, m.mtype = .initDir → m.lockPosition.toNat < lockBktSize) →
      t.Clear := by
    intro t hb hi htab hslots
    refine ⟨hslots, fun hnot hflag => ?_⟩
    rw [htab]
    exact h.free (fun hb' => hnot (hb.mpr hb')) (hi ▸ hflag)
  obtain ⟨m, rfl, -, rfl⟩ | ⟨x, rfl, rfl⟩ | ⟨rfl, rfl⟩ | ⟨u, rfl, rfl⟩ | ⟨-, ha⟩ := step_cases hs
  · refine ⟨h.slots, fun hnot => ?_⟩
    exact (hnot ((begun_step hs).mpr (.inr ⟨m, rfl⟩))).elim
  · exact hkeep .rfl rfl rfl h.slots
  · obtain ⟨hb, -, hsub⟩ := s.dirCtrlFromNet_aside
    refine ⟨fun m hm => h.slots m (hsub m hm), fun hnot hi => ?_⟩
    have hnot' : ¬ s.Begun := fun hb' => hnot (hb.mpr hb')
    rcases dirCtrlFromNet_of_not_begun hnot' with heq | ⟨hflag, heq | heq⟩
    · rw [heq]
      exact fun _ => rfl
    · rw [heq]
      exact fun b => s.fromNetAck_aside.2.2.2.2 b (h.free hnot' hflag b)
    · rw [heq]
      exact h.free hnot' hflag
  · refine hkeep .rfl rfl rfl fun m hm hinit => ?_
    rcases tick_inits hl u with ⟨x, xs, -, -, -, hW⟩ | ⟨-, -, -, hW⟩
    · replace hm : m ∈ (s.stage.tick u).ctrlMsgWOut := hm
      rw [hW] at hm
      rcases List.mem_append.mp hm with hm | hm
      · exact h.slots m hm hinit
      · rw [List.mem_singleton.mp hm]
        exact hu u rfl
    · exact h.slots m (hW m hm hinit) hinit
  · exact hkeep ha.begun ha.initFlag ha.gbIndexArr (ha.ctrlMsgWOut ▸ h.slots)

/-- No completion of an initialised entry frees the lock of a message. -/
theorem Clear.harmless (h : s.Clear) (hset : s.Begun → s.Settled) : s.InitHarmless a := by
  rintro - hi - - m ms hW hm
  have hmem : m ∈ s.stage.ctrlMsgWOut := hW ▸ List.mem_cons_self
  refine ⟨h.slots m hmem hm, h.free (fun hb => ?_) hi _⟩
  exact (hset hb).2 m hmem hm

/-- When nothing is being initialised, what is on its way to memory is for the blocks whose places
it takes. -/
theorem Made.index {d : Directory} (h : s.Made d) (hset : s.Settled) (x : BitVec 34) :
    (d.entries x).dirGblockIndex = (s.mem x).dirGblockIndex := by
  obtain ⟨port, done, writing, read, asking, h⟩ := h
  rw [h.entries]
  exact flush_kept (f := DirDataE.dirGblockIndex) (h.stored hset)

theorem Made.settled {d : Directory} (h : s.Made d) (hb : s.Begun) : s.Settled := by
  obtain ⟨port, done, writing, read, asking, h⟩ := h
  exact h.settled hb

end DirPipeline

/-! ## The atomic directory -/

namespace Directory

variable {d d' : Directory} {b : DirectoryAction}

/-- A step that initialises no entry. -/
def serves (b : DirectoryAction) : Prop := ∀ e, b ≠ .init e

/-- Without an initialisation the places of the blocks stay as they are. -/
theorem index_step (hb : serves b) (hs : d.step b = some d') (x : BitVec 34) :
    (d'.entries x).dirGblockIndex = (d.entries x).dirGblockIndex := by
  cases b with
  | arrive m =>
      cases hs
      rfl
  | init e => exact (hb e rfl).elim
  | serve =>
      unfold step at hs
      dsimp only at hs
      split at hs
      next m ms hm =>
        obtain ⟨-, hs⟩ := Option.ite_none_right_eq_some.mp hs
        cases hs
        show (Function.update d.entries (ddrAddr m.dirGblockIndex) _ x).dirGblockIndex = _
        rcases eq_or_ne x (ddrAddr m.dirGblockIndex) with rfl | hne
        · rw [Function.update_self]
          exact (DirCase.of_transaction _ _ _).index
        · rw [Function.update_of_ne hne]
      next => cases hs
  | copy =>
      obtain ⟨-, hs⟩ := Option.ite_none_right_eq_some.mp hs
      cases hs
      rfl

/-- Nor do they change in a run. -/
theorem index_run (h : ReflTransGen (directory.StepWhen fun _ b => serves b) d d') (x : BitVec 34) :
    (d'.entries x).dirGblockIndex = (d.entries x).dirGblockIndex := by
  induction h with
  | refl => rfl
  | tail _ hs ih =>
      obtain ⟨b, hb, hs⟩ := hs
      exact (index_step hb hs x).trans ih

/-- A directory that nothing has arrived at has nothing to do. -/
theorem Init.idle (h : d.Init) (hb : b = .serve ∨ b = .copy) : d.step b = none := by
  rcases hb with rfl | rfl
  · simp only [Directory.step, h.waiting]
  · rw [Directory.step, h.copyFlag]
    rfl

end Directory

end Ting
