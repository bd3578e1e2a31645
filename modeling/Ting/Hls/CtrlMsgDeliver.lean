/-
# `Ting.Hls.CtrlMsgDeliver` — the queues of the system threads

`c2hCtrlMsgDeliverHLS` hands the control messages for the host to the two buffer managers.  An
application message goes to the queue of its thread, a system message to the queues of the system
threads in turn.  Which one is next is in a register, which is set back when it has reached
`q_num - 1`; but then the message goes to queue 0 and not to the one that the register names, so
queue 0 gets two messages in every turn, and the last queue none.
-/
import Ting.Hls.Framing
import Ting.Lib.Transition

namespace Ting

/-- `THREAD_TYPE_APP`. -/
def threadTypeApp : BitVec 8 := 0

/-- `PSEUDO_QID_BMAPP`. -/
def pseudoQidBmapp : BitVec 11 := 0

/-- `PSEUDO_QID_BMSYS`. -/
def pseudoQidBmsys : BitVec 11 := 1

/-- `c2hCtrlMsgDeliverHLS` with its streams; the outputs with all that has been written to them.
`taken` is a history: the messages that have been read. -/
structure CtrlMsgDeliver where
  ctrlMsgIn : List StructCtrlMsg
  c2hDataAbmOut : List StructC2hData
  c2hDataSbmOut : List StructC2hData
  regQId : BitVec 32
  taken : List StructCtrlMsg

/-- A message for a system thread. -/
def StructCtrlMsg.isSys (m : StructCtrlMsg) : Bool := m.dstThreadType ≠ threadTypeApp

namespace CtrlMsgDeliver

/-- A system message. -/
def toSbm (qNum : BitVec 32) (m : StructCtrlMsg) (c2h : StructC2hData) (s : CtrlMsgDeliver) :
    CtrlMsgDeliver :=
  let wrap := (qNum.toNat : ℤ) - 1 ≤ s.regQId.toNat
  let qId := if wrap then 0 else s.regQId
  { s with
    regQId := if wrap then 0 else s.regQId + 1
    c2hDataSbmOut := s.c2hDataSbmOut ++
      [{ (ctrlMsgToC2hData m pseudoQidBmsys c2h).2 with ctrlQid := qId.setWidth 11 }] }

/-- An application message. -/
def toAbm (m : StructCtrlMsg) (c2h : StructC2hData) (s : CtrlMsgDeliver) : CtrlMsgDeliver :=
  { s with
    c2hDataAbmOut := s.c2hDataAbmOut ++
      [{ (ctrlMsgToC2hData m pseudoQidBmapp c2h).2 with
          ctrlQid := m.reqClineAppThreadID.setWidth 11 }] }

/-- One invocation; `c2h` is its local variable. -/
def tick (qNum : BitVec 32) (c2h : StructC2hData) (s : CtrlMsgDeliver) : CtrlMsgDeliver :=
  match s.ctrlMsgIn with
  | m :: ms =>
      let s := { s with ctrlMsgIn := ms, taken := s.taken ++ [m] }
      if m.isSys then s.toSbm qNum m c2h else s.toAbm m c2h
  | [] => s

/-- A message arrives, or a tick. -/
inductive Action
  | arrive (m : StructCtrlMsg)
  | tick (c2h : StructC2hData)

def step (qNum : BitVec 32) (a : Action) (s : CtrlMsgDeliver) : Option CtrlMsgDeliver :=
  match a with
  | .arrive m => some { s with ctrlMsgIn := s.ctrlMsgIn ++ [m] }
  | .tick c2h => some (s.tick qNum c2h)

/-- The state after a reset. -/
def start : CtrlMsgDeliver := ⟨[], [], [], 0, []⟩

end CtrlMsgDeliver

/-- This as a transition system. -/
def ctrlMsgDeliver (qNum : BitVec 32) : TransitionSystem CtrlMsgDeliver CtrlMsgDeliver.Action :=
  ⟨(· = .start), CtrlMsgDeliver.step qNum⟩

namespace CtrlMsgDeliver

variable {qNum : BitVec 32} {s : CtrlMsgDeliver}

/-- The queue of the `k`-th system message. -/
def queueOf (qNum : BitVec 32) (k : ℕ) : ℕ :=
  if k % qNum.toNat + 1 = qNum.toNat then 0 else k % qNum.toNat

/-- The system messages so far. -/
def sysMsgs (s : CtrlMsgDeliver) : List StructCtrlMsg := s.taken.filter StructCtrlMsg.isSys

/-- The register counts the system messages, and each has gone where it was at the time. -/
structure Rotated (qNum : BitVec 32) (s : CtrlMsgDeliver) : Prop where
  reg : s.regQId.toNat = s.sysMsgs.length % qNum.toNat
  length : s.c2hDataSbmOut.length = s.sysMsgs.length
  sent : ∀ k m, s.sysMsgs[k]? = some m → ∃ c2h, s.c2hDataSbmOut[k]? =
    some { (ctrlMsgToC2hData m pseudoQidBmsys c2h).2 with
      ctrlQid := BitVec.ofNat 11 (queueOf qNum k) }

/-- Application messages do not take part. -/
theorem Rotated.toAbm {m : StructCtrlMsg} {ms : List StructCtrlMsg} (h : Rotated qNum s)
    (hm : m.isSys = false) (c2h : StructC2hData) :
    Rotated qNum (CtrlMsgDeliver.toAbm m c2h { s with ctrlMsgIn := ms, taken := s.taken ++ [m] }) := by
  have hsys : (CtrlMsgDeliver.toAbm m c2h { s with
      ctrlMsgIn := ms, taken := s.taken ++ [m] }).sysMsgs = s.sysMsgs := by
    simp [sysMsgs, CtrlMsgDeliver.toAbm, hm]
  refine ⟨?_, ?_, ?_⟩
  · rw [hsys]
    exact h.reg
  · rw [hsys]
    exact h.length
  · rw [hsys]
    exact h.sent

/-- Counting modulo `q`. -/
theorem succ_mod {n q : ℕ} (hq : 0 < q) :
    (n + 1) % q = if n % q + 1 = q then 0 else n % q + 1 := by
  have hlt := Nat.mod_lt n hq
  have hsum : n + 1 = q * (n / q) + (n % q + 1) := by
    rw [← Nat.add_assoc, Nat.div_add_mod]
  rw [hsum, Nat.mul_add_mod]
  split
  next h => rw [h, Nat.mod_self]
  next h => exact Nat.mod_eq_of_lt (by omega)

/-- At the end of a turn the register is set back, and the message goes to queue 0. -/
theorem Rotated.toSbm {m : StructCtrlMsg} {ms : List StructCtrlMsg} (h : Rotated qNum s)
    (hq : 0 < qNum.toNat) (hm : m.isSys = true) (c2h : StructC2hData) :
    Rotated qNum (CtrlMsgDeliver.toSbm qNum m c2h { s with
      ctrlMsgIn := ms, taken := s.taken ++ [m] }) := by
  have hsys : (CtrlMsgDeliver.toSbm qNum m c2h { s with
      ctrlMsgIn := ms, taken := s.taken ++ [m] }).sysMsgs = s.sysMsgs ++ [m] := by
    simp [sysMsgs, CtrlMsgDeliver.toSbm, hm]
  have hlt := Nat.mod_lt s.sysMsgs.length hq
  have hwrap : (qNum.toNat : ℤ) - 1 ≤ s.regQId.toNat ↔
      s.sysMsgs.length % qNum.toNat + 1 = qNum.toNat := by
    rw [h.reg]
    omega
  have hreg := h.reg
  refine ⟨?_, ?_, fun k m' hk => ?_⟩
  · rw [hsys, List.length_append, List.length_singleton, succ_mod hq]
    simp only [CtrlMsgDeliver.toSbm, hwrap]
    split
    · rfl
    · have hqlt := qNum.isLt
      rw [BitVec.toNat_add, hreg]
      exact Nat.mod_eq_of_lt (by change _ + 1 < _; omega)
  · rw [hsys, List.length_append, ← h.length, CtrlMsgDeliver.toSbm]
    exact List.length_append
  · rw [hsys] at hk
    rcases Nat.lt_or_ge k s.sysMsgs.length with hlt' | hge
    · rw [List.getElem?_append_left hlt'] at hk
      obtain ⟨c2h', hsent⟩ := h.sent k m' hk
      refine ⟨c2h', ?_⟩
      rw [CtrlMsgDeliver.toSbm, List.getElem?_append_left (by rw [h.length]; exact hlt')]
      exact hsent
    · rw [List.getElem?_append_right hge, List.getElem?_singleton] at hk
      split at hk
      next hzero =>
        obtain rfl : k = s.sysMsgs.length := by omega
        obtain rfl := Option.some.inj hk
        refine ⟨c2h, ?_⟩
        rw [CtrlMsgDeliver.toSbm, List.getElem?_append_right h.length.le, h.length, Nat.sub_self]
        simp only [hwrap, queueOf, List.getElem?_cons_zero, Option.some.injEq,
          StructC2hData.mk.injEq, true_and, and_true]
        split
        · rfl
        · refine BitVec.eq_of_toNat_eq ?_
          rw [BitVec.toNat_setWidth, BitVec.toNat_ofNat, hreg]
      next => cases hk

theorem rotated (hq : 0 < qNum.toNat) (hr : (ctrlMsgDeliver qNum).Reachable s) :
    Rotated qNum s := by
  refine hr.invariant ?_ fun s a s' _ h hs => ?_
  · rintro _ rfl
    exact ⟨(Nat.zero_mod _).symm, rfl, fun k m hk => nomatch hk⟩
  · cases a with
    | arrive m =>
        cases hs
        exact ⟨h.reg, h.length, h.sent⟩
    | tick c2h =>
        cases hs
        unfold tick
        split
        next m ms hin =>
          dsimp only
          split
          next hm => exact h.toSbm hq hm c2h
          next hm => exact h.toAbm (Bool.eq_false_iff.mpr hm) c2h
        next => exact h

/-- The `k`-th system message goes to queue `k mod q_num` just when it is not the last one of a
turn, or there is only one queue, and the number of the queue fits in its field. -/
theorem system_messages_rotate (hq : 1 ≤ qNum.toNat) (hr : (ctrlMsgDeliver qNum).Reachable s)
    {k : ℕ} {m : StructCtrlMsg} (hk : s.sysMsgs[k]? = some m) :
    ∃ d c2h, s.c2hDataSbmOut[k]? = some d ∧ d.data = (ctrlMsgToC2hData m pseudoQidBmsys c2h).2.data ∧
      (d.ctrlQid.toNat = k % qNum.toNat ↔
        (qNum.toNat = 1 ∨ k % qNum.toNat ≠ qNum.toNat - 1) ∧ k % qNum.toNat < 2 ^ 11) := by
  obtain ⟨c2h, hsent⟩ := (rotated hq hr).sent k m hk
  refine ⟨_, c2h, hsent, rfl, ?_⟩
  have hlt := Nat.mod_lt k hq
  rw [BitVec.toNat_ofNat, queueOf]
  split
  next h =>
    rw [Nat.zero_mod]
    constructor
    · intro hzero
      exact ⟨.inl (by omega), by omega⟩
    · rintro ⟨hone | hne, -⟩
      · omega
      · omega
  next h =>
    constructor
    · intro he
      exact ⟨.inr (by omega), by rw [← he]; exact Nat.mod_lt _ (by omega)⟩
    · rintro ⟨-, hsmall⟩
      exact Nat.mod_eq_of_lt hsmall

/-- `k` system messages, one after the other. -/
def sysRun (k : ℕ) : List Action :=
  (List.replicate k [Action.arrive { StructCtrlMsg.blank with dstThreadType := 1 },
    .tick ⟨0, 0, 0⟩]).flatten

/-- Of four queues, the second message goes to the second one. -/
theorem system_messages_rotate_second : ∃ s : CtrlMsgDeliver, ∃ d : StructC2hData,
    s.c2hDataSbmOut[1]? = some d ∧ d.ctrlQid.toNat = 1 % 4 := by
  obtain ⟨s, hr, hv⟩ := TransitionSystem.exists_reachable (T := ctrlMsgDeliver 4)
    (f := fun s => s.sysMsgs.length) (v := 2) (sysRun 2) rfl (by decide +kernel)
  have hk : s.sysMsgs[1]? = some s.sysMsgs[1] := List.getElem?_eq_getElem (by omega)
  obtain ⟨d, -, hd, -, hiff⟩ := system_messages_rotate (by decide) hr hk
  exact ⟨s, d, hd, hiff.mpr ⟨.inr (by decide), by decide⟩⟩

/-- The fourth message goes to the first one. -/
theorem last_queue_starved : ¬ ∀ (qNum : BitVec 32) (s : CtrlMsgDeliver), 1 ≤ qNum.toNat →
    (ctrlMsgDeliver qNum).Reachable s → ∀ k d, s.c2hDataSbmOut[k]? = some d →
      d.ctrlQid.toNat = k % qNum.toNat := by
  intro hall
  obtain ⟨s, hr, hv⟩ := TransitionSystem.exists_reachable (T := ctrlMsgDeliver 4)
    (f := fun s => (s.c2hDataSbmOut[3]?).map StructC2hData.ctrlQid) (v := some 0) (sysRun 4) rfl
    (by decide +kernel)
  obtain ⟨d, hd, hqid⟩ := Option.map_eq_some_iff.mp hv
  have hthree := hall 4 s (by decide) hr 3 d hd
  rw [hqid] at hthree
  exact absurd hthree (by decide)

end CtrlMsgDeliver

end Ting
