/-
# `Ting.Hls.LockTable` — who holds a lock of the directory

A message holds the lock of its bucket from the tick in which it is sent on until the one in which
its completion is read.  Everything in between keeps the messages in order, so the locks are
released in the order in which they were acquired, each by the message that has it.

The completion of an `INIT_DIR` message is read like any other, and releases a lock too: in the
bucket of its block the one in whatever slot its `lock_position` names, a field that nothing has
assigned.
-/
import Ting.Hls.Pipeline
import Ting.Hls.Multicast

namespace Ting

/-! ## What a transaction keeps of a message -/

/-- The block and the slot that a message has locked. -/
def CtrlMsg.lockOf (m : CtrlMsg) : BlockIndex × BitVec 8 :=
  (m.dirGblockIndex, m.lockPosition)

theorem RawMessageType.ne_initDir {t : RawMessageType} (h : t.toDir) : t ≠ .initDir := by
  rintro rfl
  cases h

theorem DirCase.ctrlMsgW {r : DirRegs} {m : CtrlMsg} {e : DirDataE} {t : DirTick}
    (h : DirCase r m e t) (hm : m.mtype.toDir) :
    t.ctrlMsgW.lockOf = m.lockOf ∧ t.ctrlMsgW.mtype ≠ .initDir := by
  have hne := RawMessageType.ne_initDir hm
  cases h with
  | mCheckFail | bitmapCheckFail | readMiss | readMissDirty | writeMiss | writeMissShared
  | writeMissDirty | writeSharedOnly | evictShared | evictDirty | sharedAckLast
  | notonlyAckLast => exact ⟨rfl, nofun⟩
  | writeSharedNotonly | readMissDirtyAckdata | writeMissDirtyAck | sharedAckMore | notonlyAckMore
  | ignored => exact ⟨rfl, hne⟩

namespace DirPipeline

/-- A completion that releases a lock of its own. -/
def owns (m : CtrlMsg) : Bool := decide (m.mtype ≠ .initDir)

/-- The messages that hold a lock, the oldest first. -/
def holding (s : DirPipeline) : List CtrlMsg :=
  s.stage.ctrlMsgWOut.filter owns ++ s.stage.ctrlMsgRIn

/-- The lock table and the messages that hold its locks. -/
structure Locks (s : DirPipeline) : Prop where
  arrived : ∀ m ∈ s.ctrlMsgIn, m.mtype.toDir
  retry : s.regRetryFlag = true → s.regRetryCtrlMsg.mtype.toDir
  read : ∀ m ∈ s.stage.ctrlMsgRIn, m.mtype.toDir
  order : s.acquired.map CtrlMsg.lockOf =
    s.released.map CtrlMsg.lockOf ++ s.holding.map CtrlMsg.lockOf
  held : ∀ m ∈ s.holding, m.lockPosition = 0 ∧ m.dirGblockIndex ≠ freeSlot ∧
    s.regGbIndexArr m.bucketId = m.dirGblockIndex
  apart : s.holding.Pairwise fun m m' => m.bucketId ≠ m'.bucketId
  fresh : s.regInitFlag = true → s.holding = []
  inside : s.outside = false

/-- A step that reads the completion of an `INIT_DIR` message finds the slot in its
`lock_position` in the table, and free. -/
def InitHarmless (s : DirPipeline) (a : Action) : Prop :=
  a = .fromNet → s.regInitFlag = false → s.regSourceFlag = true → s.dirAck ≠ [] →
    ∀ m ms, s.stage.ctrlMsgWOut = m :: ms → m.mtype = .initDir →
      m.lockPosition.toNat < lockBktSize ∧ s.regGbIndexArr m.bucketId = freeSlot

namespace Locks

variable {s s' : DirPipeline}

theorem of_init (h : Init s) : Locks s where
  arrived := by rw [h.ctrlMsgIn]; nofun
  retry := by rw [h.retryFlag]; nofun
  read := by rw [h.ctrlMsgRIn]; nofun
  order := by rw [holding, h.acquired, h.released, h.ctrlMsgWOut, h.ctrlMsgRIn]; rfl
  held := by rw [holding, h.ctrlMsgWOut, h.ctrlMsgRIn]; nofun
  apart := by rw [holding, h.ctrlMsgWOut, h.ctrlMsgRIn]; exact .nil
  fresh := by rw [holding, h.ctrlMsgWOut, h.ctrlMsgRIn]; exact fun _ => rfl
  inside := h.outside

/-- A message takes a free bucket. -/
theorem sendOn {m : CtrlMsg} (h : Locks s) (hm : m.mtype.toDir) (hinit : s.regInitFlag = false)
    (hpos : m.lockPosition = 0) (hidx : m.dirGblockIndex ≠ freeSlot)
    (hfree : s.regGbIndexArr m.bucketId = freeSlot) : Locks (s.sendOn m) := by
  have hnew : ∀ m' ∈ s.holding, m'.bucketId ≠ m.bucketId := by
    intro m' hm' heq
    obtain ⟨-, hne, htab⟩ := h.held m' hm'
    rw [heq] at htab
    exact hne (htab.symm.trans hfree)
  have hhold : (s.sendOn m).holding = s.holding ++ [m] := (List.append_assoc ..).symm
  refine ⟨h.arrived, nofun, fun m' hm' => ?_, ?_, fun m' hm' => ?_, ?_, fun hi => ?_, h.inside⟩
  · rcases List.mem_append.mp hm' with hold | hnewm
    · exact h.read m' hold
    · rw [List.mem_singleton.mp hnewm]
      exact hm
  · rw [hhold]
    show (s.acquired ++ [m]).map _ = s.released.map _ ++ _
    rw [List.map_append, List.map_append, h.order, List.append_assoc]
  · rw [hhold] at hm'
    show _ ∧ _ ∧ Function.update s.regGbIndexArr m.bucketId m.dirGblockIndex m'.bucketId = _
    rcases List.mem_append.mp hm' with hold | hnewm
    · rw [Function.update_of_ne (hnew m' hold)]
      exact h.held m' hold
    · rw [List.mem_singleton.mp hnewm, Function.update_self]
      exact ⟨hpos, hidx, rfl⟩
  · rw [hhold]
    refine List.pairwise_append.mpr ⟨h.apart, List.pairwise_singleton _ _, fun m' hm' e he => ?_⟩
    rw [List.mem_singleton.mp he]
    exact hnew m' hm'
  · exact absurd (hi.symm.trans hinit) nofun

/-- A message takes a free bucket, or goes to the retry register. -/
theorem lock {m : CtrlMsg} (h : Locks s) (hm : m.mtype.toDir) (hinit : s.regInitFlag = false) :
    Locks (s.lock m) := by
  unfold DirPipeline.lock
  split
  next => exact ⟨h.arrived, fun _ => hm, h.read, h.order, h.held, h.apart, h.fresh, h.inside⟩
  next hfree =>
    obtain ⟨hconf, hfree⟩ := not_or.mp hfree
    replace hfree := not_ne_iff.mp hfree
    exact h.sendOn (m := { m with lockPosition := 0 }) hm hinit rfl
      (fun heq => hconf (heq.trans hfree.symm)) hfree

/-- A tick that looks for a message. -/
theorem fromNetMsg (h : Locks s) (hinit : s.regInitFlag = false) : Locks s.fromNetMsg := by
  unfold DirPipeline.fromNetMsg
  split
  next hretry =>
    exact lock (s := { s with regSourceFlag := true }) ⟨h.arrived, h.retry, h.read, h.order, h.held,
      h.apart, h.fresh, h.inside⟩ (h.retry hretry) hinit
  next =>
    split
    next m ms hin =>
      refine lock (s := { s with regSourceFlag := true, ctrlMsgIn := ms }) ⟨fun m' hm' => ?_,
        h.retry, h.read, h.order, h.held, h.apart, h.fresh, h.inside⟩ ?_ hinit
      · exact h.arrived m' (hin ▸ List.mem_cons_of_mem _ hm')
      · exact h.arrived m (hin ▸ List.mem_cons_self ..)
    next => exact ⟨h.arrived, h.retry, h.read, h.order, h.held, h.apart, h.fresh, h.inside⟩

/-- The completion of a message of its own is that of the oldest holder. -/
theorem holding_own {m : CtrlMsg} {ms : List CtrlMsg} (hW : s.stage.ctrlMsgWOut = m :: ms)
    (hown : m.mtype ≠ .initDir) :
    s.holding = m :: (ms.filter owns ++ s.stage.ctrlMsgRIn) := by
  have hm : owns m = true := decide_eq_true hown
  rw [holding, hW, List.filter_cons_of_pos hm, List.cons_append]

/-- An `INIT_DIR` message holds nothing. -/
theorem holding_init {m : CtrlMsg} {ms : List CtrlMsg} (hW : s.stage.ctrlMsgWOut = m :: ms)
    (hinit : m.mtype = .initDir) :
    s.holding = ms.filter owns ++ s.stage.ctrlMsgRIn := by
  have hm : ¬owns m = true := by
    rw [owns, hinit]
    nofun
  rw [holding, hW, List.filter_cons_of_neg hm]

/-- The completion of the oldest holder frees its slot. -/
theorem fromNetAck_own {k : BitVec 8} {ks : List (BitVec 8)} {m : CtrlMsg} {ms : List CtrlMsg}
    (h : Locks s) (hA : s.dirAck = k :: ks) (hW : s.stage.ctrlMsgWOut = m :: ms)
    (hown : m.mtype ≠ .initDir) :
    s.fromNetAck = { s with
      regSourceFlag := false
      dirAck := ks
      stage := { s.stage with ctrlMsgWOut := ms }
      released := s.released ++ [m]
      regGbIndexArr := Function.update s.regGbIndexArr m.bucketId freeSlot } := by
  have hpos : m.lockPosition.toNat < lockBktSize := by
    rw [(h.held m (holding_own hW hown ▸ List.mem_cons_self ..)).1]
    exact Nat.one_pos
  simp only [fromNetAck, hA, hW, DirPipeline.release, if_pos hpos, if_neg hown]

/-- The completion of an `INIT_DIR` message that names a free slot of the table changes nothing
there. -/
theorem fromNetAck_init {k : BitVec 8} {ks : List (BitVec 8)} {m : CtrlMsg} {ms : List CtrlMsg}
    (hA : s.dirAck = k :: ks) (hW : s.stage.ctrlMsgWOut = m :: ms) (hinit : m.mtype = .initDir)
    (hpos : m.lockPosition.toNat < lockBktSize) (hfree : s.regGbIndexArr m.bucketId = freeSlot) :
    s.fromNetAck = { s with
      regSourceFlag := false
      dirAck := ks
      stage := { s.stage with ctrlMsgWOut := ms } } := by
  have htab : Function.update s.regGbIndexArr m.bucketId freeSlot = s.regGbIndexArr := by
    rw [← hfree, Function.update_eq_self]
  simp only [fromNetAck, hA, hW, DirPipeline.release, if_pos hpos, if_pos hinit, htab,
    List.append_nil]

/-- A tick that looks for a completion. -/
theorem fromNetAck (h : Locks s) (hinit : s.regInitFlag = false)
    (hok : s.dirAck ≠ [] → ∀ m ms, s.stage.ctrlMsgWOut = m :: ms → m.mtype = .initDir →
      m.lockPosition.toNat < lockBktSize ∧ s.regGbIndexArr m.bucketId = freeSlot) :
    Locks s.fromNetAck := by
  rcases hA : s.dirAck with _ | ⟨k, ks⟩
  · simp only [DirPipeline.fromNetAck, hA]
    exact ⟨h.arrived, h.retry, h.read, h.order, h.held, h.apart, h.fresh, h.inside⟩
  rcases hW : s.stage.ctrlMsgWOut with _ | ⟨m, ms⟩
  · simp only [DirPipeline.fromNetAck, hA, hW]
    exact ⟨h.arrived, h.retry, h.read, h.order, h.held, h.apart, h.fresh, h.inside⟩
  cases hown : decide (m.mtype = .initDir) with
  | true =>
    replace hown := of_decide_eq_true hown
    obtain ⟨hpos, hfree⟩ := hok (hA ▸ List.cons_ne_nil k ks) m ms hW hown
    rw [fromNetAck_init hA hW hown hpos hfree]
    obtain ⟨harr, hret, hread, hord, hheld, hap, -, hin⟩ := h
    rw [holding_init hW hown] at hord hheld hap
    exact ⟨harr, hret, hread, hord, hheld, hap, fun hi => absurd (hi.symm.trans hinit) nofun, hin⟩
  | false =>
    replace hown := of_decide_eq_false hown
    rw [fromNetAck_own h hA hW hown]
    obtain ⟨harr, hret, hread, hord, hheld, hap, -, hin⟩ := h
    rw [holding_own hW hown] at hord hheld hap
    obtain ⟨hhead, htail⟩ := List.pairwise_cons.mp hap
    refine ⟨harr, hret, hread, ?_, fun m' hm' => ?_, htail,
      fun hi => absurd (hi.symm.trans hinit) nofun, hin⟩
    · show s.acquired.map _ = (s.released ++ [m]).map _ ++ _
      rw [hord, List.map_append, List.append_assoc]
      rfl
    · show _ ∧ _ ∧ Function.update s.regGbIndexArr m.bucketId freeSlot m'.bucketId = _
      rw [Function.update_of_ne (hhead m' hm').symm]
      exact hheld m' (List.mem_cons_of_mem _ hm')

/-- A tick of `dirCtrlHLS_from_net`. -/
theorem dirCtrlFromNet (h : Locks s) (hok : InitHarmless s .fromNet) :
    Locks s.dirCtrlFromNet := by
  unfold DirPipeline.dirCtrlFromNet
  split
  next hi =>
    have hnone := h.fresh hi
    refine ⟨h.arrived, h.retry, h.read, h.order, fun m hm => ?_, h.apart, nofun, h.inside⟩
    exact absurd (hnone ▸ hm) List.not_mem_nil
  next hi =>
    have hi := Bool.eq_false_iff.mpr hi
    split
    next hsrc => exact h.fromNetAck hi (hok rfl hi hsrc)
    next => exact h.fromNetMsg hi

/-! ## The other stages -/

/-- The stage may change, as long as the locks that its messages hold stay the same. -/
theorem stage (h : Locks s) {st : DirStage} (hread : ∀ m ∈ st.ctrlMsgRIn, m.mtype.toDir)
    (hlocks : (holding { s with stage := st }).map CtrlMsg.lockOf = s.holding.map CtrlMsg.lockOf) :
    Locks { s with stage := st } where
  arrived := h.arrived
  retry := h.retry
  read := hread
  order := by rw [hlocks]; exact h.order
  held m hm := by
    have hmem : m.lockOf ∈ s.holding.map CtrlMsg.lockOf := hlocks ▸ List.mem_map_of_mem hm
    obtain ⟨m', hm', heq⟩ := List.mem_map.mp hmem
    obtain ⟨hidx, hpos⟩ := Prod.mk.inj heq
    have := h.held m' hm'
    rw [CtrlMsg.bucketId, hidx, hpos] at this
    exact this
  apart := by
    have hap : (s.holding.map CtrlMsg.lockOf).Pairwise fun l l' => l.1.setWidth 8 ≠ l'.1.setWidth 8 :=
      List.pairwise_map.mpr h.apart
    rw [← hlocks] at hap
    have := List.pairwise_map.mp hap
    exact this
  fresh hi := by
    have hnil := hlocks
    rw [h.fresh hi] at hnil
    exact List.map_eq_nil_iff.mp hnil
  inside := h.inside

/-- A tick of `dirCtrlHLS_to_net`: an `INIT_DIR` message has no lock, and a message that is taken
up keeps the one that it has. -/
theorem toNet (h : Locks s) (u : Uninit) : Locks { s with stage := s.stage.tick u } := by
  unfold DirStage.tick
  split
  next d ds hd =>
    refine h.stage h.read (congrArg _ ?_)
    have hm : ¬owns (initDirMsg d u.ctrlMsg) = true := nofun
    show (s.stage.ctrlMsgWOut ++ [initDirMsg d u.ctrlMsg]).filter owns ++ _ = _
    rw [List.filter_append, List.filter_cons_of_neg hm, List.filter_nil, List.append_nil]
    rfl
  next =>
    split
    next =>
      split
      next m ms e es hm he =>
        have hto := h.read m (hm ▸ List.mem_cons_self ..)
        obtain ⟨hlock, hne⟩ := (DirCase.of_transaction s.stage.regs m e).ctrlMsgW hto
        have hown : owns (transaction s.stage.regs m e).ctrlMsgW = true := decide_eq_true hne
        refine h.stage (fun m' hm' => h.read m' (hm ▸ List.mem_cons_of_mem _ hm')) ?_
        show ((s.stage.ctrlMsgWOut ++ [(transaction s.stage.regs m e).ctrlMsgW]).filter owns
          ++ ms).map CtrlMsg.lockOf = _
        rw [holding, hm, List.filter_append, List.filter_cons_of_pos hown, List.filter_nil,
          List.append_assoc, List.singleton_append, List.map_append, List.map_append, List.map_cons,
          List.map_cons, hlock]
      next => exact h
    next => exact h.stage h.read rfl

/-- Every step. -/
theorem step {a : Action} (h : Locks s) (hok : InitHarmless s a) (hs : s.step a = some s') :
    Locks s' := by
  cases a with
  | arrive m =>
    obtain ⟨hm, hs⟩ := Option.ite_none_right_eq_some.mp hs
    cases hs
    refine ⟨fun m' hm' => ?_, h.retry, h.read, h.order, h.held, h.apart, h.fresh, h.inside⟩
    rcases List.mem_append.mp hm' with hold | hnew
    · exact h.arrived m' hold
    · rw [List.mem_singleton.mp hnew]
      exact hm
  | init d =>
    cases hs
    exact h.stage h.read rfl
  | fromNet =>
    cases hs
    exact h.dirCtrlFromNet hok
  | toNet u =>
    cases hs
    exact h.toNet u
  | ar =>
    cases hs
    unfold ddrInstAr
    split
    next => exact ⟨h.arrived, h.retry, h.read, h.order, h.held, h.apart, h.fresh, h.inside⟩
    next => exact h
  | read =>
    cases hs
    unfold ddrRead
    split
    next => exact ⟨h.arrived, h.retry, h.read, h.order, h.held, h.apart, h.fresh, h.inside⟩
    next => exact h
  | r =>
    cases hs
    unfold ddrInstR
    split
    next =>
      split
      next => exact ⟨h.arrived, h.retry, h.read, h.order, h.held, h.apart, h.fresh, h.inside⟩
      next => exact ⟨h.arrived, h.retry, h.read, h.order, h.held, h.apart, h.fresh, h.inside⟩
    next => exact h
  | awW =>
    cases hs
    unfold ddrInstAwW
    split
    next =>
      split
      next => exact ⟨h.arrived, h.retry, h.read, h.order, h.held, h.apart, h.fresh, h.inside⟩
      next => exact h
    next => exact ⟨h.arrived, h.retry, h.read, h.order, h.held, h.apart, h.fresh, h.inside⟩
  | write bid =>
    cases hs
    unfold ddrWrite
    split
    next => exact ⟨h.arrived, h.retry, h.read, h.order, h.held, h.apart, h.fresh, h.inside⟩
    next => exact h
  | b =>
    cases hs
    unfold ddrInstB
    split
    next => exact ⟨h.arrived, h.retry, h.read, h.order, h.held, h.apart, h.fresh, h.inside⟩
    next => exact h

theorem of_reachableWhen (hr : dirPipeline.ReachableWhen InitHarmless s) : Locks s :=
  hr.invariant (fun _ => of_init) fun _ _ _ _ hok h hs => h.step hok hs

end Locks

/-! ## Releases -/

/-- As long as every completion of an `INIT_DIR` message finds its slot in the table and free, the
locks are released in the order in which they were acquired, each by the message that has it. -/
theorem lock_released_by_holder {s : DirPipeline} (hr : dirPipeline.ReachableWhen InitHarmless s) :
    s.acquired.map CtrlMsg.lockOf =
        s.released.map CtrlMsg.lockOf ++ s.holding.map CtrlMsg.lockOf ∧
    (∀ m ∈ s.holding, m.lockPosition.toNat < lockBktSize ∧
      s.regGbIndexArr m.bucketId = m.dirGblockIndex) ∧
    (s.holding.Pairwise fun m m' => m.bucketId ≠ m'.bucketId) ∧
    s.outside = false ∧
    ∀ k ks m ms, s.regInitFlag = false → s.regSourceFlag = true → s.dirAck = k :: ks →
      s.stage.ctrlMsgWOut = m :: ms → InitHarmless s .fromNet →
      (m.mtype = .initDir → s.dirCtrlFromNet.regGbIndexArr = s.regGbIndexArr) ∧
      (m.mtype ≠ .initDir →
        s.holding = m :: s.dirCtrlFromNet.holding ∧
        s.dirCtrlFromNet.released = s.released ++ [m] ∧
        s.dirCtrlFromNet.regGbIndexArr =
          Function.update s.regGbIndexArr m.bucketId freeSlot) := by
  have h := Locks.of_reachableWhen hr
  refine ⟨h.order, fun m hm => ?_, h.apart, h.inside, fun k ks m ms hi hsrc hA hW hok => ?_⟩
  · obtain ⟨hpos, -, htab⟩ := h.held m hm
    rw [hpos]
    exact ⟨Nat.one_pos, htab⟩
  have htick : s.dirCtrlFromNet = s.fromNetAck := by
    simp only [dirCtrlFromNet, hi, hsrc, Bool.false_eq_true, if_false, if_true]
  rw [htick]
  refine ⟨fun hinit => ?_, fun hown => ?_⟩
  · obtain ⟨hpos, hfree⟩ := hok rfl hi hsrc (hA ▸ List.cons_ne_nil k ks) m ms hW hinit
    rw [Locks.fromNetAck_init hA hW hinit hpos hfree]
  · rw [Locks.fromNetAck_own h hA hW hown]
    exact ⟨Locks.holding_own hW hown, rfl, rfl⟩

/-- After a reset. -/
def reset : DirPipeline where
  ctrlMsgIn := []
  regInitFlag := true
  regRetryFlag := false
  regRetryCtrlMsg := fromNodeZero .rReadMiss
  regGbIndexArr _ := 0
  regSourceFlag := false
  dirCmd := []
  ddrAr := []
  ddrR := []
  regEndFlagR := true
  regDirDataR := sharedEntry (fun _ => false) 0
  stage := { DirStage.holding (fromNodeZero .rReadMiss) (sharedEntry (fun _ => false) 0) with
    ctrlMsgRIn := []
    dirDataIn := [] }
  regEndFlagW := true
  regDirDataW := sharedEntry (fun _ => false) 0
  ddrAw := []
  ddrW := []
  ddrB := []
  dirAck := []
  mem _ := sharedEntry (fun _ => false) 0
  acquired := []
  released := []
  outside := false

theorem init_reset : Init reset := by
  constructor <;> rfl

/-- A read miss that has gone through all the stages is about to release its lock. -/
theorem lock_released_by_holder_once :
    ∃ s : DirPipeline, s.holding.length = 1 ∧ s.dirCtrlFromNet.holding = [] ∧
      s.dirCtrlFromNet.released = s.holding := by
  have hmiss : ∀ (s : DirPipeline) (a : Action), s.stage.ctrlMsgWOut.all owns → InitHarmless s a := by
    intro s a hall _ _ _ _ m ms hW hm
    rw [hW, List.all_cons, owns, hm] at hall
    cases hall
  obtain ⟨s, hr, hs⟩ := TransitionSystem.exists_reachableWhen (T := dirPipeline)
    (f := fun s => (s.regInitFlag, s.regSourceFlag, s.dirAck.length,
      s.stage.ctrlMsgWOut.map (·.mtype), s.stage.ctrlMsgRIn.length, s.released.length))
    (v := (false, true, 1, [.dir2AppReadMissAckdata], 0, 0))
    [.fromNet, .arrive { fromNodeZero .rReadMiss with dirGblockIndex := 5 }, .fromNet, .ar, .read,
      .r, .r, .toNet anyUninit, .awW, .awW, .write 0, .b]
    hmiss init_reset (by decide +kernel)
  simp only [Prod.mk.injEq] at hs
  obtain ⟨hi, hsrc, hA, hW, hR, hrel⟩ := hs
  obtain ⟨k, hA⟩ := List.length_eq_one_iff.mp hA
  obtain ⟨m, ms, hW, hm, hms⟩ := List.map_eq_cons_iff.mp hW
  rw [List.map_eq_nil_iff.mp hms] at hW
  have hown : m.mtype ≠ .initDir := by
    rw [hm]
    intro h
    cases h
  have hall : s.stage.ctrlMsgWOut.all owns := by
    rw [hW, List.all_cons, owns, decide_eq_true hown]
    rfl
  have hhold : s.holding = [m] := by
    rw [Locks.holding_own hW hown, List.eq_nil_of_length_eq_zero hR]
    rfl
  obtain ⟨-, -, -, -, hcompletion⟩ := lock_released_by_holder hr
  obtain ⟨htail, hnew, -⟩ := (hcompletion _ _ m [] hi hsrc hA hW (hmiss s _ hall)).2 hown
  rw [List.eq_nil_of_length_eq_zero hrel] at hnew
  refine ⟨s, congrArg List.length hhold, ?_, hnew.trans hhold.symm⟩
  rw [hhold] at htail
  exact (List.cons.inj htail).2.symm

/-- A read miss of block 5 has the lock of its bucket; the entry of block 261 is initialised, and
the completion frees the lock. -/
theorem lock_released_by_init :
    ∃ s : DirPipeline, dirPipeline.Reachable s ∧ s.released = [] ∧
      s.holding.map (fun m => (m.dirGblockIndex, s.regGbIndexArr m.bucketId)) =
        [(5, freeSlot)] := by
  obtain ⟨s, hr, hs⟩ := TransitionSystem.exists_reachable (T := dirPipeline)
    (f := fun s => (s.released,
      s.holding.map fun m => (m.dirGblockIndex, s.regGbIndexArr m.bucketId)))
    (v := ([], [(5, freeSlot)]))
    [.fromNet, .arrive { fromNodeZero .rReadMiss with dirGblockIndex := 5 }, .fromNet,
      .init ⟨0, 261, fun _ => false, .sUnshared, 0⟩, .toNet anyUninit, .awW, .awW, .write 0, .b,
      .fromNet]
    init_reset (by decide +kernel)
  obtain ⟨hrel, hhold⟩ := Prod.mk.inj hs
  exact ⟨s, hr, hrel, hhold⟩

end DirPipeline

end Ting
