/-
# `Ting.Hls.CmdDataDeliver` — which of three sources writes to the host

Three sources on the card write to host memory, each with a stream of commands and a stream of data
beats: the buffer managers of the applications and of the system threads, and the `deparser` with
the payloads.  `c2hCmdDataDeliverHLS` lets one through at a time.  Between two bursts it looks which
sources have a command and a beat, and takes the next one of these in turn; it forwards the command
with the first beat, and then beats of the same source up to the last one.  The source is the one
that the command names as its queue, and what is forwarded names none.

Which source it was is kept in a register of 32 bits, which is set to `0xffff` when there was none,
and to its successor when all three are ready.  A tick in which all of them are ready and the
register does not name a source forwards nothing.  Left out are the debug outputs.
-/
import Ting.Hls.NetLink

namespace Ting

/-- Where commands and data come from: `ABM`, `SBM` and `D`. -/
inductive C2hSource
  | bmapp
  | bmsys
  | d
  deriving DecidableEq

namespace C2hSource

/-- `PSEUDO_QID_BMAPP`, `PSEUDO_QID_BMSYS` and `PSEUDO_QID_D`. -/
def pseudoQid : C2hSource → BitVec 11
  | bmapp => 0
  | bmsys => 1
  | d => pseudoQidD

/-- The source whose beats the second branch of a tick reads. -/
def ofQid (q : BitVec 11) : Option C2hSource :=
  if q = bmapp.pseudoQid then some bmapp
  else if q = bmsys.pseudoQid then some bmsys
  else if q = d.pseudoQid then some d
  else none

@[simp] theorem ofQid_pseudoQid (src : C2hSource) : ofQid src.pseudoQid = some src := by
  cases src <;> rfl

/-- The source that the first branch reads. -/
def ofIdx (i : BitVec 32) : Option C2hSource :=
  if i = 0 then some bmapp
  else if i = 1 then some bmsys
  else if i = 2 then some d
  else none

/-- The index of the source. -/
def idx : C2hSource → BitVec 32
  | bmapp => 0
  | bmsys => 1
  | d => 2

@[simp] theorem ofIdx_idx (src : C2hSource) : ofIdx src.idx = some src := by
  cases src <;> rfl

theorem eq_idx_of_ofIdx {i : BitVec 32} {src : C2hSource} (h : ofIdx i = some src) :
    i = src.idx := by
  unfold ofIdx at h
  split at h
  next hi =>
    cases h
    exact hi
  next =>
    split at h
    next hi =>
      cases h
      exact hi
    next =>
      split at h
      next hi =>
        cases h
        exact hi
      next => cases h

end C2hSource

/-- `tmp_ready_flag_idx`, from the three valid flags and `reg_ready_flag_idx`. -/
def readyFlagIdx (bmapp bmsys d : Bool) (prev : BitVec 32) : BitVec 32 :=
  match d, bmsys, bmapp with
  | false, false, false => 0xffff
  | false, false, true => 0
  | false, true, false => 1
  | true, false, false => 2
  | true, true, true => if prev = 2 then 0 else prev + 1
  | false, true, true => if prev = 0 then 1 else 0
  | true, false, true => if prev = 2 then 0 else 2
  | true, true, false => if prev = 1 then 2 else 1

/-- `c2hCmdDataDeliverHLS` with its streams; the outputs with all that has been written to them. -/
structure CmdDataDeliver where
  c2hCmdIn : C2hSource → List StructC2hCmd
  c2hDataIn : C2hSource → List StructC2hData
  c2hCmdOut : List StructC2hCmd
  c2hDataOut : List StructC2hData
  regC2hCmd : StructC2hCmd
  regEndFlag : Bool
  regReadyFlagIdx : BitVec 32

/-- A command as it is forwarded. -/
def StructC2hCmd.forwarded (c : StructC2hCmd) : StructC2hCmd := { c with qid := 0 }

/-- A beat as it is forwarded. -/
def StructC2hData.forwarded (d : StructC2hData) : StructC2hData := { d with ctrlQid := 0 }

namespace CmdDataDeliver

variable (s : CmdDataDeliver)

/-- A source has a command and a beat. -/
def valid (src : C2hSource) : Bool :=
  !(s.c2hCmdIn src).isEmpty && !(s.c2hDataIn src).isEmpty

/-- The index that a tick between two bursts computes. -/
def nextIdx : BitVec 32 :=
  readyFlagIdx (s.valid .bmapp) (s.valid .bmsys) (s.valid .d) s.regReadyFlagIdx

/-- The first branch for one source: a command and the first beat of its burst. -/
def first (src : C2hSource) : CmdDataDeliver :=
  match s.c2hCmdIn src, s.c2hDataIn src with
  | c :: cs, d :: ds => { s with
      c2hCmdIn := Function.update s.c2hCmdIn src cs
      c2hDataIn := Function.update s.c2hDataIn src ds
      c2hCmdOut := s.c2hCmdOut ++ [c.forwarded]
      c2hDataOut := s.c2hDataOut ++ [d.forwarded]
      regC2hCmd := if d.last = 0 then c else s.regC2hCmd
      regEndFlag := if d.last = 0 then false else s.regEndFlag }
  | _, _ => s

/-- A tick between two bursts. -/
def select : CmdDataDeliver :=
  let s' := { s with regReadyFlagIdx := s.nextIdx }
  match C2hSource.ofIdx s.nextIdx with
  | some src => s'.first src
  | none => s'

/-- The second branch for one source: another beat of the burst. -/
def beat (src : C2hSource) : CmdDataDeliver :=
  match s.c2hDataIn src with
  | d :: ds => { s with
      c2hDataIn := Function.update s.c2hDataIn src ds
      c2hDataOut := s.c2hDataOut ++ [d.forwarded]
      regEndFlag := if d.last = 1 then true else s.regEndFlag }
  | [] => s

/-- A tick within a burst. -/
def goOn : CmdDataDeliver :=
  match C2hSource.ofQid s.regC2hCmd.qid with
  | some src => s.beat src
  | none => s

/-- One invocation of `c2hCmdDataDeliverHLS`. -/
def tick : CmdDataDeliver :=
  if s.regEndFlag then s.select else s.goOn

end CmdDataDeliver

/-! ## Runs -/

namespace CmdDataDeliver

/-- Something arrives from a source, or a tick. -/
inductive Action
  | cmdArrives (src : C2hSource) (c : StructC2hCmd)
  | dataArrives (src : C2hSource) (d : StructC2hData)
  | tick

def step (a : Action) (s : CmdDataDeliver) : Option CmdDataDeliver :=
  match a with
  | .cmdArrives src c => some { s with
      c2hCmdIn := Function.update s.c2hCmdIn src (s.c2hCmdIn src ++ [c]) }
  | .dataArrives src d => some { s with
      c2hDataIn := Function.update s.c2hDataIn src (s.c2hDataIn src ++ [d]) }
  | .tick => some s.tick

/-- After a reset. -/
structure Init (s : CmdDataDeliver) : Prop where
  cmdIn : ∀ src, s.c2hCmdIn src = []
  dataIn : ∀ src, s.c2hDataIn src = []
  cmdOut : s.c2hCmdOut = []
  dataOut : s.c2hDataOut = []
  endFlag : s.regEndFlag = true
  readyFlagIdx : s.regReadyFlagIdx = 0

end CmdDataDeliver

/-- The arbiter as a transition system, open to any arrivals. -/
def cmdDataDeliver : TransitionSystem CmdDataDeliver CmdDataDeliver.Action :=
  ⟨CmdDataDeliver.Init, CmdDataDeliver.step⟩

/-! ## The choice -/

/-- The index names a ready source, unless none is ready, or all are and the register has been
stepped. -/
theorem readyFlagIdx_cases (bmapp bmsys d : Bool) (prev : BitVec 32) :
    (bmapp = true ∧ readyFlagIdx bmapp bmsys d prev = 0) ∨
    (bmsys = true ∧ readyFlagIdx bmapp bmsys d prev = 1) ∨
    (d = true ∧ readyFlagIdx bmapp bmsys d prev = 2) ∨
    (bmapp = false ∧ bmsys = false ∧ d = false) ∨
    (bmapp = true ∧ bmsys = true ∧ d = true ∧ prev ≠ 2 ∧
      readyFlagIdx bmapp bmsys d prev = prev + 1) := by
  unfold readyFlagIdx
  split
  · exact .inr (.inr (.inr (.inl ⟨rfl, rfl, rfl⟩)))
  · exact .inl ⟨rfl, rfl⟩
  · exact .inr (.inl ⟨rfl, rfl⟩)
  · exact .inr (.inr (.inl ⟨rfl, rfl⟩))
  · split
    · exact .inl ⟨rfl, rfl⟩
    next hp => exact .inr (.inr (.inr (.inr ⟨rfl, rfl, rfl, hp, rfl⟩)))
  · split
    · exact .inr (.inl ⟨rfl, rfl⟩)
    · exact .inl ⟨rfl, rfl⟩
  · split
    · exact .inl ⟨rfl, rfl⟩
    · exact .inr (.inr (.inl ⟨rfl, rfl⟩))
  · split
    · exact .inr (.inr (.inl ⟨rfl, rfl⟩))
    · exact .inr (.inl ⟨rfl, rfl⟩)

namespace CmdDataDeliver

variable {s : CmdDataDeliver}

/-- A source that is valid has something to forward. -/
theorem first_of_valid {src : C2hSource} (h : s.valid src) :
    ∃ c cs d ds, s.c2hCmdIn src = c :: cs ∧ s.c2hDataIn src = d :: ds := by
  obtain ⟨hc, hd⟩ := Bool.and_eq_true_iff.mp h
  cases hcs : s.c2hCmdIn src with
  | nil =>
      rw [hcs] at hc
      cases hc
  | cons c cs =>
      cases hds : s.c2hDataIn src with
      | nil =>
          rw [hds] at hd
          cases hd
      | cons d ds => exact ⟨c, cs, d, ds, rfl, rfl⟩

/-- A tick takes a command and a beat from this source, which its index names, and forwards
them. -/
structure Forwards (s : CmdDataDeliver) (src : C2hSource) : Prop where
  named : s.tick.regReadyFlagIdx = src.idx
  forwarded : ∃ c cs d ds, s.c2hCmdIn src = c :: cs ∧ s.c2hDataIn src = d :: ds ∧
    s.tick.c2hCmdIn = Function.update s.c2hCmdIn src cs ∧
    s.tick.c2hDataIn = Function.update s.c2hDataIn src ds ∧
    s.tick.c2hCmdOut = s.c2hCmdOut ++ [c.forwarded] ∧
    s.tick.c2hDataOut = s.c2hDataOut ++ [d.forwarded]

theorem regReadyFlagIdx_first (s : CmdDataDeliver) (src : C2hSource) :
    (s.first src).regReadyFlagIdx = s.regReadyFlagIdx := by
  unfold first
  split <;> rfl

theorem regReadyFlagIdx_select (s : CmdDataDeliver) : s.select.regReadyFlagIdx = s.nextIdx := by
  unfold select
  dsimp only
  split
  · rw [regReadyFlagIdx_first]
  · rfl

theorem forwards_of_nextIdx {src : C2hSource} (hend : s.regEndFlag) (hv : s.valid src)
    (hi : s.nextIdx = src.idx) : s.Forwards src where
  named := by rw [tick, if_pos hend, regReadyFlagIdx_select, hi]
  forwarded := by
    obtain ⟨c, cs, d, ds, hc, hd⟩ := first_of_valid hv
    refine ⟨c, cs, d, ds, hc, hd, ?_⟩
    simp only [tick, if_pos hend, select, hi, C2hSource.ofIdx_idx, first, hc, hd, and_self]

/-! ## Work conservation -/

/-- The register names a source, or it has been set to `0xffff` and perhaps counted on. -/
def IdxInRange (s : CmdDataDeliver) : Prop :=
  s.regReadyFlagIdx.toNat < 3 ∨ 0xffff ≤ s.regReadyFlagIdx.toNat

theorem IdxInRange.nextIdx (h : s.IdxInRange) :
    s.nextIdx.toNat < 3 ∨ 0xffff ≤ s.nextIdx.toNat := by
  have hcases := readyFlagIdx_cases (s.valid .bmapp) (s.valid .bmsys) (s.valid .d) s.regReadyFlagIdx
  rw [← CmdDataDeliver.nextIdx] at hcases
  rcases hcases with ⟨-, hi⟩ | ⟨-, hi⟩ | ⟨-, hi⟩ | ⟨hb, hs, hd⟩ | ⟨-, -, -, hp, hi⟩
  · rw [hi]
    exact .inl (by decide)
  · rw [hi]
    exact .inl (by decide)
  · rw [hi]
    exact .inl (by decide)
  · rw [CmdDataDeliver.nextIdx, hb, hs, hd]
    exact .inr (Nat.le_refl 0xffff)
  · have hne : s.regReadyFlagIdx.toNat ≠ 2 := fun he => hp (BitVec.eq_of_toNat_eq he)
    rw [hi, BitVec.toNat_add]
    rcases h with h | h
    · left
      change (s.regReadyFlagIdx.toNat + 1) % 2 ^ 32 < 3
      omega
    · have hlt := s.regReadyFlagIdx.isLt
      change (s.regReadyFlagIdx.toNat + 1) % 2 ^ 32 < 3 ∨ 0xffff ≤ (s.regReadyFlagIdx.toNat + 1) % 2 ^ 32
      omega

theorem idxInRange (hr : cmdDataDeliver.Reachable s) : s.IdxInRange := by
  refine hr.invariant (fun s hi => ?_) fun s a s' _ hp hs => ?_
  · rw [IdxInRange, hi.readyFlagIdx]
    exact .inl (by decide)
  · cases a with
    | cmdArrives src c | dataArrives src d =>
        cases hs
        exact hp
    | tick =>
        cases hs
        rw [IdxInRange, tick]
        split
        · rw [regReadyFlagIdx_select]
          exact hp.nextIdx
        · have hgo : s.goOn.regReadyFlagIdx = s.regReadyFlagIdx := by
            unfold goOn beat
            split
            · split <;> rfl
            · rfl
          rw [hgo]
          exact hp

/-- A tick between two bursts forwards something from a ready source, if there is one, unless all
of them are ready and the register is at `0xffff` or counts on from there. -/
theorem work_conserving (hr : cmdDataDeliver.Reachable s) (hend : s.regEndFlag)
    (hready : ∃ src, s.valid src) : (∃ src, s.valid src ∧ s.Forwards src) ↔
      ¬ ((∀ src, s.valid src) ∧ 0xffff ≤ s.regReadyFlagIdx.toNat ∧
        s.regReadyFlagIdx.toNat < 0xffffffff) := by
  have hcases := readyFlagIdx_cases (s.valid .bmapp) (s.valid .bmsys) (s.valid .d) s.regReadyFlagIdx
  rw [← CmdDataDeliver.nextIdx] at hcases
  constructor
  · rintro ⟨src, -, hf⟩ ⟨hall, hlo, hhi⟩
    -- all three are ready, so the index is the successor of the register
    have hi : s.nextIdx = s.regReadyFlagIdx + 1 := by
      have hne : s.regReadyFlagIdx ≠ 2 := by
        intro he
        rw [he] at hlo
        exact absurd hlo (by decide)
      rw [CmdDataDeliver.nextIdx, hall .bmapp, hall .bmsys, hall .d, readyFlagIdx, if_neg hne]
    have hidx := hf.named
    rw [tick, if_pos hend, regReadyFlagIdx_select, hi] at hidx
    have hnat := congrArg BitVec.toNat hidx
    rw [BitVec.toNat_add, Nat.mod_eq_of_lt (by change _ + 1 < _; omega)] at hnat
    have hsmall : src.idx.toNat < 3 := by cases src <;> decide
    change s.regReadyFlagIdx.toNat + 1 = _ at hnat
    omega
  · intro hok
    rcases hcases with ⟨hv, hi⟩ | ⟨hv, hi⟩ | ⟨hv, hi⟩ | ⟨hb, hs, hd⟩ | ⟨hb, hs, hd, hp, hi⟩
    · exact ⟨.bmapp, hv, forwards_of_nextIdx hend hv hi⟩
    · exact ⟨.bmsys, hv, forwards_of_nextIdx hend hv hi⟩
    · exact ⟨.d, hv, forwards_of_nextIdx hend hv hi⟩
    · obtain ⟨src, hsrc⟩ := hready
      cases src with
      | bmapp => cases hb.symm.trans hsrc
      | bmsys => cases hs.symm.trans hsrc
      | d => cases hd.symm.trans hsrc
    · have hall : ∀ src, s.valid src := fun src => by cases src <;> assumption
      have hne : s.regReadyFlagIdx.toNat ≠ 2 := fun he => hp (BitVec.eq_of_toNat_eq he)
      have hlt := s.regReadyFlagIdx.isLt
      have hval : s.regReadyFlagIdx.toNat = 0 ∨ s.regReadyFlagIdx.toNat = 1 ∨
          s.regReadyFlagIdx.toNat = 0xffffffff := by
        have hno : ¬ (0xffff ≤ s.regReadyFlagIdx.toNat ∧ s.regReadyFlagIdx.toNat < 0xffffffff) :=
          fun h => hok ⟨hall, h⟩
        rcases idxInRange hr with h | h
        · omega
        · exact .inr (.inr (by omega))
      rcases hval with h | h | h
      · have he : s.regReadyFlagIdx = 0 := BitVec.eq_of_toNat_eq h
        exact ⟨.bmsys, hs, forwards_of_nextIdx hend hs (by rw [hi, he]; rfl)⟩
      · have he : s.regReadyFlagIdx = 1 := BitVec.eq_of_toNat_eq h
        exact ⟨.d, hd, forwards_of_nextIdx hend hd (by rw [hi, he]; rfl)⟩
      · have he : s.regReadyFlagIdx = 0xffffffff := BitVec.eq_of_toNat_eq h
        exact ⟨.bmapp, hb, forwards_of_nextIdx hend hb (by rw [hi, he]; rfl)⟩

/-- Each source has sent a command and a single beat. -/
def allReady : List Action :=
  [C2hSource.bmapp, .bmsys, .d].flatMap fun src =>
    [.cmdArrives src ⟨0, 64, src.pseudoQid⟩, .dataArrives src ⟨0, src.pseudoQid, 1⟩]

/-- The state after a reset. -/
def start : CmdDataDeliver where
  c2hCmdIn _ := []
  c2hDataIn _ := []
  c2hCmdOut := []
  c2hDataOut := []
  regC2hCmd := ⟨0, 0, 0⟩
  regEndFlag := true
  regReadyFlagIdx := 0

theorem start_init : start.Init :=
  ⟨fun _ => rfl, fun _ => rfl, rfl, rfl, rfl, rfl⟩

/-- Without an idle tick before, one of three is taken. -/
theorem work_conserving_first : ∃ s : CmdDataDeliver, (∀ src, s.valid src) ∧
    ∃ src, s.valid src ∧ s.Forwards src := by
  obtain ⟨s, hr, hv⟩ := TransitionSystem.exists_reachable (T := cmdDataDeliver)
    (f := fun s => (s.regEndFlag, s.regReadyFlagIdx, s.valid .bmapp, s.valid .bmsys, s.valid .d))
    (v := (true, 0, true, true, true)) allReady start_init (by decide)
  obtain ⟨hend, hv⟩ := Prod.mk.inj hv
  obtain ⟨hidx, hv⟩ := Prod.mk.inj hv
  obtain ⟨hb, hv⟩ := Prod.mk.inj hv
  obtain ⟨hs, hd⟩ := Prod.mk.inj hv
  refine ⟨s, fun src => by cases src <;> assumption, ?_⟩
  refine (work_conserving hr hend ⟨_, hb⟩).mpr ?_
  rintro ⟨-, hlo, -⟩
  rw [hidx] at hlo
  exact absurd hlo (by decide)

/-- After an idle tick, none is. -/
theorem all_ready_none_forwarded : ¬ ∀ s : CmdDataDeliver, cmdDataDeliver.Reachable s →
    s.regEndFlag → (∃ src, s.valid src) → ∃ src, s.valid src ∧ s.Forwards src := by
  intro hall
  obtain ⟨s, hr, hv⟩ := TransitionSystem.exists_reachable (T := cmdDataDeliver)
    (f := fun s => (s.regEndFlag, s.valid .bmapp, s.tick.c2hCmdOut.length, s.c2hCmdOut.length))
    (v := (true, true, 0, 0)) (.tick :: allReady) start_init (by decide)
  obtain ⟨hend, hv⟩ := Prod.mk.inj hv
  obtain ⟨hb, hv⟩ := Prod.mk.inj hv
  obtain ⟨hafter, hbefore⟩ := Prod.mk.inj hv
  obtain ⟨src, -, hf⟩ := hall s hr hend ⟨_, hb⟩
  obtain ⟨c, cs, d, ds, -, -, -, -, hout, -⟩ := hf.forwarded
  rw [hout, List.length_append, hbefore] at hafter
  cases hafter

end CmdDataDeliver

end Ting
