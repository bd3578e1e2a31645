/-
# `Ting.Hls.AtomicDir` — the directory as one step

What the stages of a directory do to a message together, with the memory in between, is what
`dirCtrlHLS_to_net` does to it with the entry at hand: the directory serves the messages in the
order in which they arrive, reads the entry of a block as the message before has left it, and
leaves it for the next (`directory`).

This is so as long as the entries are initialised before any message arrives, and the messages are
for blocks that have one.
-/
import Ting.Hls.LockTable
import Ting.Lib.WriteQueue

namespace Ting

open WriteQueue

/-! ## The directory -/

/-- The directory without its pipeline: the messages that wait, the entries, the registers of the
multicast, and the messages that have been sent. -/
structure Directory where
  waiting : List CtrlMsg
  entries : BitVec 34 → DirDataE
  regs : DirRegs
  sent : List CtrlMsg

/-- A message arrives, an entry is initialised, the next message is served, or the multicast that
it has begun goes on. -/
inductive DirectoryAction
  | arrive (m : CtrlMsg)
  | init (e : DirDataE)
  | serve
  | copy

/-- A message without a lock. -/
def CtrlMsg.unlocked (m : CtrlMsg) : CtrlMsg :=
  { m with lockPosition := 0 }

namespace Directory

/-- The step function. -/
def step (a : DirectoryAction) (d : Directory) : Option Directory :=
  match a with
  | .arrive m => some { d with waiting := d.waiting ++ [m.unlocked] }
  | .init e => some { d with
      entries := Function.update d.entries (ddrAddr e.dirGblockIndex) e }
  | .serve =>
      match d.waiting with
      | m :: ms =>
          if d.regs.regCopyFlag = false then
            let t := transaction d.regs m (d.entries (ddrAddr m.dirGblockIndex))
            some {
              waiting := ms
              entries := Function.update d.entries (ddrAddr m.dirGblockIndex) t.dirData
              regs := t.regs
              sent := d.sent ++ t.out.toList }
          else none
      | [] => none
  | .copy =>
      if d.regs.regCopyFlag then
        some { d with
          regs := (copyStep d.regs).1
          sent := d.sent ++ (copyStep d.regs).2.toList }
      else none

/-- At the start nothing waits, and nothing has been sent. -/
structure Init (d : Directory) : Prop where
  waiting : d.waiting = []
  copyFlag : d.regs.regCopyFlag = false
  sent : d.sent = []

end Directory

/-- The directory as a transition system. -/
def directory : TransitionSystem Directory DirectoryAction :=
  ⟨Directory.Init, Directory.step⟩

/-- A transaction leaves the entry with its block. -/
theorem DirCase.index {r : DirRegs} {m : CtrlMsg} {e : DirDataE} {t : DirTick}
    (h : DirCase r m e t) : t.dirData.dirGblockIndex = e.dirGblockIndex := by
  cases h <;> rfl

namespace DirPipeline

variable {s s' : DirPipeline} {m : CtrlMsg}

/-! ## Words on a bus -/

/-- The two words of each entry, one after the other. -/
def twice (es : List DirDataE) : List DirDataE :=
  es.flatMap fun e => [e, e]

theorem twice_append (es : List DirDataE) (e : DirDataE) : twice (es ++ [e]) = twice es ++ [e, e] :=
  List.flatMap_append ..

/-- The words on their way from memory are those of the entries `es`; the first one of the oldest
may have been taken into the register. -/
inductive Coming (r : DirDataE) : Bool → List DirDataE → List DirDataE → Prop
  | whole (es : List DirDataE) : Coming r true (twice es) es
  | half (e : DirDataE) (es : List DirDataE) (h : joinWords r e = e) :
      Coming r false (e :: twice es) (e :: es)

/-- The words on their way to memory are those of the entries `es`; the second one of the latest
may still be in the register. -/
inductive Going (r : DirDataE) : Bool → List DirDataE → List DirDataE → Prop
  | whole (es : List DirDataE) : Going r true (twice es) es
  | half (es : List DirDataE) : Going r false (twice es ++ [r]) (es ++ [r])

theorem Coming.append {r e : DirDataE} {f : Bool} {ws es : List DirDataE} (h : Coming r f ws es) :
    Coming r f (ws ++ [e, e]) (es ++ [e]) := by
  cases h with
  | whole =>
      rw [← twice_append]
      exact .whole _
  | half e' es h =>
      rw [List.cons_append, ← twice_append]
      exact .half _ _ h

theorem Coming.first {r w : DirDataE} {ws es : List DirDataE} (h : Coming r true (w :: ws) es) :
    Coming (joinWords w r) false ws es := by
  generalize hf : true = f at h
  generalize hws : w :: ws = xs at h
  cases h with
  | half => cases hf
  | whole es =>
      cases es with
      | nil => cases hws
      | cons e es =>
          cases hws
          exact .half _ es rfl

theorem Coming.second {r w : DirDataE} {ws es : List DirDataE} (h : Coming r false (w :: ws) es) :
    ∃ es', es = joinWords r w :: es' ∧ Coming r true ws es' := by
  generalize hf : false = f at h
  generalize hws : w :: ws = xs at h
  cases h with
  | whole => cases hf
  | half e es he =>
      cases hws
      exact ⟨es, by rw [he], .whole es⟩

theorem Going.whole_eq {r : DirDataE} {ws es : List DirDataE} (h : Going r true ws es) :
    ws = twice es := by
  cases h
  rfl

theorem Going.half_eq {r : DirDataE} {ws es : List DirDataE} (h : Going r false ws es) :
    ∃ es', es = es' ++ [r] ∧ ws = twice es' ++ [r] := by
  cases h
  exact ⟨_, rfl, rfl⟩

/-- A word of two from memory, and nothing after the first two is touched. -/
theorem Going.first {r w w' : DirDataE} {f : Bool} {ws es : List DirDataE}
    (h : Going r f (w :: w' :: ws) es) : ∃ es', es = w :: es' ∧ w' = w ∧ Going r f ws es' := by
  generalize hws : w :: w' :: ws = xs at h
  cases h with
  | whole es =>
      cases es with
      | nil => cases hws
      | cons e es =>
          cases hws
          exact ⟨es, rfl, rfl, .whole es⟩
  | half es =>
      cases es with
      | nil => cases hws
      | cons e es =>
          cases hws
          exact ⟨es ++ [r], rfl, rfl, .half es⟩

/-! ## Messages that wait -/

/-- The messages that `dirCtrlHLS_to_net` has not taken up yet, the oldest first. -/
def waiting (s : DirPipeline) : List CtrlMsg :=
  s.stage.ctrlMsgRIn ++ (if s.regRetryFlag then [s.regRetryCtrlMsg] else []) ++ s.ctrlMsgIn

/-- Two entries at one place are in one bucket. -/
theorem bucketId_of_ddrAddr {i j : BlockIndex} (h : ddrAddr i = ddrAddr j) :
    i.setWidth 8 = j.setWidth 8 := by
  unfold ddrAddr at h
  refine BitVec.eq_of_toNat_eq ?_
  have := congrArg BitVec.toNat h
  simp only [BitVec.toNat_mul, BitVec.toNat_setWidth, BitVec.ofNat_eq_ofNat, BitVec.toNat_ofNat]
    at this ⊢
  omega

/-- A message has arrived. -/
def Begun (s : DirPipeline) : Prop :=
  s.acquired ≠ [] ∨ s.regRetryFlag = true ∨ s.ctrlMsgIn ≠ []

/-- No entry is being initialised. -/
def Settled (s : DirPipeline) : Prop :=
  s.stage.dirDataInit = [] ∧ ∀ m ∈ s.stage.ctrlMsgWOut, m.mtype ≠ .initDir

/-- The entries are initialised before the first message arrives; a message is for a block that has
an entry. -/
def InitFirst (s : DirPipeline) : Action → Prop
  | .init _ => ¬ s.Begun
  | .arrive m => s.Settled ∧ (s.mem (ddrAddr m.dirGblockIndex)).dirGblockIndex = m.dirGblockIndex
  | a => s.InitHarmless a

theorem InitFirst.harmless {a : Action} (h : s.InitFirst a) : s.InitHarmless a := by
  cases a with
  | init | arrive => rintro ⟨⟩
  | _ => exact h

/-! ## What the stages do together -/

/-- The pipeline and the directory that it makes.  `port` are the entries that memory has still to
store, `done` the messages whose entry it has stored, `writing` those that it has not; `read` are
the messages whose entry has been read, and `asking` those whose entry has not. -/
structure Makes (s : DirPipeline) (d : Directory) (port : List DirDataE)
    (done writing read asking : List CtrlMsg) : Prop where
  waits : d.waiting = s.waiting.map CtrlMsg.unlocked
  regs : d.regs = s.stage.regs
  sent : d.sent = s.stage.ctrlMsgOut
  entries : d.entries =
    flush (fun e => ddrAddr e.dirGblockIndex) id s.mem (port ++ s.stage.dirDataOut)
  going : Going s.regDirDataW s.regEndFlagW s.ddrW port
  ddrAw : s.ddrAw = port.map fun e => ddrAddr e.dirGblockIndex
  ctrlMsgW : s.stage.ctrlMsgWOut = done ++ writing
  acks : done.length = s.dirAck.length + s.ddrB.length
  blocks : writing.map (·.dirGblockIndex) = (port ++ s.stage.dirDataOut).map (·.dirGblockIndex)
  ctrlMsgR : s.stage.ctrlMsgRIn = read ++ asking
  coming : ∃ es, Coming s.regDirDataR s.regEndFlagR s.ddrR es ∧
    s.stage.dirDataIn ++ es = read.map fun m => d.entries (ddrAddr m.dirGblockIndex)
  commands : asking.map (fun m => ddrAddr m.dirGblockIndex) = s.ddrAr ++ s.dirCmd.map ddrAddr
  settled : s.Begun → s.Settled
  stored : s.Settled → ∀ e ∈ port ++ s.stage.dirDataOut,
    (s.mem (ddrAddr e.dirGblockIndex)).dirGblockIndex = e.dirGblockIndex
  known : ∀ m ∈ s.waiting, (s.mem (ddrAddr m.dirGblockIndex)).dirGblockIndex = m.dirGblockIndex

theorem waiting_cons {m : CtrlMsg} {ms : List CtrlMsg} (hm : s.stage.ctrlMsgRIn = m :: ms) :
    s.waiting = m :: (ms ++ (if s.regRetryFlag then [s.regRetryCtrlMsg] else []) ++ s.ctrlMsgIn) := by
  rw [waiting, hm]
  rfl

/-- Before a message arrives nothing waits, and nothing is locked. -/
theorem Locks.idle (h : Locks s) (hb : ¬ s.Begun) : s.holding = [] ∧ s.waiting = [] := by
  obtain ⟨hacq, hb⟩ := not_or.mp hb
  obtain ⟨hretry, hin⟩ := not_or.mp hb
  have hhold : s.holding = [] := by
    have hord := h.order
    rw [not_not.mp hacq] at hord
    exact List.map_eq_nil_iff.mp (List.append_eq_nil_iff.mp hord.symm).2
  refine ⟨hhold, ?_⟩
  rw [waiting, if_neg hretry, not_not.mp hin, (List.append_eq_nil_iff.mp hhold).2]
  rfl

/-- Only initialisations are under way. -/
theorem Locks.inits (h : Locks s) (hb : ¬ s.Begun) :
    ∀ m ∈ s.stage.ctrlMsgWOut, m.mtype = .initDir := by
  intro m hm
  by_contra hne
  have hown : m ∈ s.holding :=
    List.mem_append_left _ (List.mem_filter.mpr ⟨hm, decide_eq_true hne⟩)
  rw [(h.idle hb).1] at hown
  cases hown

theorem Locks.begun (h : Locks s) (hm : m ∈ s.waiting) : s.Begun := by
  by_contra hb
  rw [(h.idle hb).2] at hm
  cases hm

namespace Makes

variable {d : Directory} {port : List DirDataE} {done writing read asking : List CtrlMsg}

/-- What is stored is not the entry of a message that has a lock and waits. -/
theorem apart (h : s.Makes d port done writing read asking) (hl : Locks s) {m : CtrlMsg}
    (hm : m ∈ s.stage.ctrlMsgRIn) : ∀ e ∈ port ++ s.stage.dirDataOut,
      ddrAddr e.dirGblockIndex ≠ ddrAddr m.dirGblockIndex := by
  intro e he heq
  have hset := h.settled (hl.begun (List.mem_append_left _ (List.mem_append_left _ hm)))
  have hmem := List.mem_map_of_mem (f := (·.dirGblockIndex)) he
  rw [← h.blocks] at hmem
  obtain ⟨k, hk, hke⟩ := List.mem_map.mp hmem
  have hW : k ∈ s.stage.ctrlMsgWOut := h.ctrlMsgW ▸ List.mem_append_right done hk
  have hown : k ∈ s.stage.ctrlMsgWOut.filter owns :=
    List.mem_filter.mpr ⟨hW, decide_eq_true (hset.2 k hW)⟩
  rw [← hke] at heq
  exact (List.pairwise_append.mp hl.apart).2.2 k hown m hm (bucketId_of_ddrAddr heq)

theorem ar (h : s.Makes d port done writing read asking) :
    s.ddrInstAr.Makes d port done writing read asking := by
  unfold ddrInstAr
  split
  next i is hi =>
    have hc := h.commands
    rw [hi] at hc
    exact { h with commands := by rw [hc, List.append_assoc]; rfl }
  next => exact h

theorem r (h : s.Makes d port done writing read asking) :
    s.ddrInstR.Makes d port done writing read asking := by
  unfold ddrInstR
  obtain ⟨es, hes, hin⟩ := h.coming
  split
  next w ws hw =>
    rw [hw] at hes
    split
    next hf =>
      rw [hf] at hes
      exact { h with coming := ⟨es, hes.first, hin⟩ }
    next hf =>
      rw [Bool.not_eq_true _ |>.mp hf] at hes
      obtain ⟨es', rfl, hes'⟩ := hes.second
      refine { h with coming := ⟨es', hes', ?_⟩ }
      rw [← hin, List.append_assoc]
      rfl
  next => exact h

theorem b (h : s.Makes d port done writing read asking) :
    s.ddrInstB.Makes d port done writing read asking := by
  unfold ddrInstB
  split
  next x xs hx =>
    have ha := h.acks
    rw [hx] at ha
    refine { h with acks := ?_ }
    rw [ha, List.length_append, List.length_cons]
    show _ = s.dirAck.length + 1 + xs.length
    omega
  next => exact h

/-- A word is read. -/
theorem reads (h : s.Makes d port done writing read asking) (hl : Locks s) :
    ∃ read' asking', s.ddrRead.Makes d port done writing read' asking' := by
  unfold ddrRead
  split
  next x xs hx =>
    have hc := h.commands
    rw [hx] at hc
    obtain ⟨m, asking', rfl, rfl, hrest⟩ := List.map_eq_cons_iff.mp hc
    obtain ⟨es, hes, hin⟩ := h.coming
    have hm : m ∈ s.stage.ctrlMsgRIn := by
      rw [h.ctrlMsgR]
      exact List.mem_append_right _ List.mem_cons_self
    have he : s.mem (ddrAddr m.dirGblockIndex) = d.entries (ddrAddr m.dirGblockIndex) := by
      rw [h.entries, flush_of_notMem (h.apart hl hm)]
    refine ⟨read ++ [m], asking', { h with
      ctrlMsgR := ?_
      coming := ⟨es ++ [s.mem (ddrAddr m.dirGblockIndex)], hes.append, ?_⟩
      commands := hrest }⟩
    · rw [List.append_assoc]
      exact h.ctrlMsgR
    · rw [← List.append_assoc, hin, List.map_append, he]
      rfl
  next => exact ⟨read, asking, h⟩

/-- An entry goes to memory. -/
theorem awW (h : s.Makes d port done writing read asking) :
    ∃ port', s.ddrInstAwW.Makes d port' done writing read asking := by
  have hgo := h.going
  unfold ddrInstAwW
  split
  next hf =>
    rw [hf] at hgo
    split
    next e es he =>
      have hport : port ++ s.stage.dirDataOut = (port ++ [e]) ++ es := by
        rw [he, List.append_assoc]
        rfl
      refine ⟨port ++ [e], { h with
        entries := h.entries.trans (by rw [hport])
        going := ?_
        ddrAw := ?_
        blocks := h.blocks.trans (by rw [hport])
        stored := fun hs => by rw [← hport]; exact h.stored hs }⟩
      · rw [hgo.whole_eq]
        exact .half port
      · rw [List.map_append, ← h.ddrAw]
        rfl
    next => exact ⟨port, h⟩
  next hf =>
    rw [Bool.not_eq_true _ |>.mp hf] at hgo
    obtain ⟨es, rfl, hws⟩ := hgo.half_eq
    refine ⟨_, { h with going := ?_ }⟩
    rw [hws, List.append_assoc]
    show Going _ true (twice es ++ [s.regDirDataW, s.regDirDataW]) _
    rw [← twice_append]
    exact .whole _

/-- An entry is stored. -/
theorem stores (h : s.Makes d port done writing read asking) (hl : Locks s) (bid : BitVec 6) :
    ∃ port' done' writing', (s.ddrWrite bid).Makes d port' done' writing' read asking := by
  unfold ddrWrite
  split
  next a as w w' ws ha hw =>
    have hgo := h.going
    rw [hw] at hgo
    obtain ⟨port', rfl, rfl, hgo'⟩ := hgo.first
    have haw := h.ddrAw
    rw [ha] at haw
    obtain ⟨rfl, has⟩ := List.cons.inj haw
    obtain ⟨k, writing', rfl, hk, hblocks⟩ := List.map_eq_cons_iff.mp h.blocks
    -- the stored entry is that of the block whose place it takes
    have hindex : s.Settled → ∀ x, (Function.update s.mem (ddrAddr w'.dirGblockIndex) (joinWords w' w')
        x).dirGblockIndex = (s.mem x).dirGblockIndex := by
      intro hs x
      rcases eq_or_ne x (ddrAddr w'.dirGblockIndex) with rfl | hne
      · rw [Function.update_self]
        exact (h.stored hs w' List.mem_cons_self).symm
      · rw [Function.update_of_ne hne]
    refine ⟨port', done ++ [k], writing', { h with
      entries := h.entries
      going := hgo'
      ddrAw := has
      ctrlMsgW := ?_
      acks := ?_
      blocks := hblocks
      stored := fun hs e he => ?_
      known := fun m hm => ?_ }⟩
    · rw [List.append_assoc]
      exact h.ctrlMsgW
    · rw [List.length_append, h.acks]
      show _ = s.dirAck.length + (s.ddrB ++ [bid]).length
      rw [List.length_append]
      rfl
    · exact ((hindex hs _).trans (h.stored hs e (List.mem_cons_of_mem _ he)))
    · exact (hindex (h.settled (hl.begun hm)) _).trans (h.known m hm)
  next => exact ⟨port, done, writing, h⟩

/-- A message asks for the lock of its block. -/
theorem lock {m : CtrlMsg} {ms : List CtrlMsg} (h : s.Makes d port done writing read asking)
    (hw : s.waiting = s.stage.ctrlMsgRIn ++ m :: ms) (hb : s.Begun) :
    ∃ asking', (DirPipeline.lock { s with regSourceFlag := true, ctrlMsgIn := ms } m).Makes d port
      done writing read asking' := by
  have hknown := h.known
  have hwaits := h.waits
  rw [hw] at hknown hwaits
  unfold DirPipeline.lock
  split
  next =>
    have hwait : s.stage.ctrlMsgRIn ++ [m] ++ ms = s.stage.ctrlMsgRIn ++ m :: ms :=
      List.append_assoc ..
    exact ⟨asking, { h with
      waits := hwaits.trans (congrArg _ hwait.symm)
      settled := fun _ => h.settled hb
      known := fun k hk => hknown k (hwait ▸ hk) }⟩
  next =>
    have hwait : s.stage.ctrlMsgRIn ++ [m.unlocked] ++ [] ++ ms
        = s.stage.ctrlMsgRIn ++ m.unlocked :: ms := by
      rw [List.append_nil, List.append_assoc]
      rfl
    refine ⟨asking ++ [m.unlocked], { h with
      waits := ?_
      ctrlMsgR := ?_
      commands := ?_
      settled := fun _ => h.settled hb
      known := fun k hk => ?_ }⟩
    · show _ = (s.stage.ctrlMsgRIn ++ [m.unlocked] ++ [] ++ ms).map CtrlMsg.unlocked
      rw [hwaits, hwait, List.map_append, List.map_append]
      rfl
    · show s.stage.ctrlMsgRIn ++ [m.unlocked] = _
      rw [h.ctrlMsgR, List.append_assoc]
    · rw [List.map_append, h.commands, List.append_assoc]
      show _ = s.ddrAr ++ (s.dirCmd ++ [m.dirGblockIndex]).map ddrAddr
      rw [List.map_append]
      rfl
    · replace hk : k ∈ s.stage.ctrlMsgRIn ++ [m.unlocked] ++ [] ++ ms := hk
      rw [hwait] at hk
      rcases List.mem_append.mp hk with hk | hk
      · exact hknown k (List.mem_append_left _ hk)
      · rcases List.mem_cons.mp hk with rfl | hk
        · exact hknown m (List.mem_append_right _ List.mem_cons_self)
        · exact hknown k (List.mem_append_right _ (List.mem_cons_of_mem m hk))

/-- A tick that looks for a message. -/
theorem fromNetMsg (h : s.Makes d port done writing read asking) :
    ∃ asking', s.fromNetMsg.Makes d port done writing read asking' := by
  unfold DirPipeline.fromNetMsg
  split
  next hr =>
    have hw : s.waiting = s.stage.ctrlMsgRIn ++ s.regRetryCtrlMsg :: s.ctrlMsgIn := by
      rw [waiting, if_pos hr, List.append_assoc]
      rfl
    exact h.lock hw (.inr (.inl hr))
  next hr =>
    split
    next m ms hin =>
      refine h.lock ?_ (.inr (.inr (by rw [hin]; rintro ⟨⟩)))
      rw [waiting, if_neg hr, hin, List.append_nil]
    next => exact ⟨asking, { h with }⟩

/-- A tick that looks for a completion. -/
theorem fromNetAck (h : s.Makes d port done writing read asking) (hl : Locks s) :
    ∃ done', s.fromNetAck.Makes d port done' writing read asking := by
  unfold DirPipeline.fromNetAck
  split
  next x acks m ms hA hW =>
    have hlen := h.acks
    have hmsgs := h.ctrlMsgW
    rw [hA] at hlen
    rw [hW] at hmsgs
    obtain ⟨done', rfl⟩ : ∃ done', done = m :: done' := by
      cases done with
      | nil => cases hlen.trans (Nat.succ_add ..)
      | cons k done' =>
          cases hmsgs
          exact ⟨done', rfl⟩
    have hms : ms = done' ++ writing := (List.cons.inj hmsgs).2
    have hmem : ∀ k ∈ ms, k ∈ s.stage.ctrlMsgWOut := fun k hk => hW ▸ List.mem_cons_of_mem m hk
    have hnext : (release { s with
        regSourceFlag := false
        dirAck := acks
        stage := { s.stage with ctrlMsgWOut := ms } } m).Makes d port done' writing read asking := by
      have hsettled : s.Begun → s.stage.dirDataInit = [] ∧ ∀ k ∈ ms, k.mtype ≠ .initDir := fun hb =>
        ⟨(h.settled hb).1, fun k hk => (h.settled hb).2 k (hmem k hk)⟩
      have hacks : done'.length = acks.length + s.ddrB.length := by
        simp only [List.length_cons] at hlen
        omega
      have hstored : (s.stage.dirDataInit = [] ∧ ∀ k ∈ ms, k.mtype ≠ .initDir) →
          ∀ e ∈ port ++ s.stage.dirDataOut,
            (s.mem (ddrAddr e.dirGblockIndex)).dirGblockIndex = e.dirGblockIndex := by
        intro hs e he
        by_cases hb : s.Begun
        · exact h.stored (h.settled hb) e he
        · -- the last initialisation is complete, so nothing is left to be stored
          have hnil : ms = [] := by
            refine List.eq_nil_iff_forall_not_mem.mpr fun k hk => ?_
            exact hs.2 k hk (hl.inits hb k (hmem k hk))
          have hblocks := h.blocks
          rw [(List.append_eq_nil_iff.mp (hms.symm.trans hnil)).2] at hblocks
          rw [List.map_eq_nil_iff.mp hblocks.symm] at he
          cases he
      unfold release
      dsimp only
      split
      all_goals exact { h with
        ctrlMsgW := hms
        acks := hacks
        settled := hsettled
        stored := hstored }
    exact ⟨done', hnext⟩
  next => exact ⟨done, { h with }⟩

/-- A tick of `dirCtrlHLS_from_net`. -/
theorem fromNet (h : s.Makes d port done writing read asking) (hl : Locks s) :
    ∃ done' asking', s.dirCtrlFromNet.Makes d port done' writing read asking' := by
  unfold dirCtrlFromNet
  split
  next => exact ⟨done, asking, { h with }⟩
  next =>
    split
    next =>
      obtain ⟨done', h'⟩ := h.fromNetAck hl
      exact ⟨done', asking, h'⟩
    next => exact ⟨done, h.fromNetMsg⟩

/-- An entry is initialised. -/
theorem initDir (h : s.Makes d port done writing read asking) (hl : Locks s) (hb : ¬ s.Begun)
    (e : DirData) (es : List DirData) (u : Uninit) :
    ∃ d' writing', directory.step (.init (dirDataToDirDataE e u.agentClineAddr)) d = some d' ∧
      Makes { s with stage := s.stage.initDir e es u } d' port done writing' read asking := by
  have hwait := (hl.idle hb).2
  have hRIn : s.stage.ctrlMsgRIn = [] :=
    (List.append_eq_nil_iff.mp (List.append_eq_nil_iff.mp hwait).1).1
  have hread : read = [] := (List.append_eq_nil_iff.mp (h.ctrlMsgR.symm.trans hRIn)).1
  obtain ⟨ws, hws, hin⟩ := h.coming
  refine ⟨_, writing ++ [initDirMsg e u.ctrlMsg], rfl, { h with
    entries := ?_
    ctrlMsgW := ?_
    blocks := ?_
    coming := ⟨ws, hws, ?_⟩
    settled := fun hb' => (hb hb').elim
    stored := fun hs => ?_
    known := fun m hm => ?_ }⟩
  · show _ = flush _ _ s.mem (port ++ (s.stage.dirDataOut ++ [_]))
    rw [← List.append_assoc, flush_append, ← h.entries]
    rfl
  · show s.stage.ctrlMsgWOut ++ _ = _
    rw [h.ctrlMsgW, List.append_assoc]
  · show _ = (port ++ (s.stage.dirDataOut ++ [_])).map _
    rw [← List.append_assoc, List.map_append, List.map_append, h.blocks]
    rfl
  · rw [hread] at hin ⊢
    exact hin
  · exact (hs.2 (initDirMsg e u.ctrlMsg) (List.mem_append_right _ List.mem_cons_self) rfl).elim
  · replace hm : m ∈ s.waiting := hm
    rw [hwait] at hm
    cases hm

/-- The message that is served next and its entry, which is the last one of its block. -/
theorem next (h : s.Makes d port done writing read asking) (hl : Locks s) {m : CtrlMsg}
    {ms : List CtrlMsg} {e : DirDataE} {es : List DirDataE}
    (hm : s.stage.ctrlMsgRIn = m :: ms) (he : s.stage.dirDataIn = e :: es) :
    ∃ read', read = m :: read' ∧ ms = read' ++ asking ∧
      d.entries (ddrAddr m.dirGblockIndex) = e ∧ e.dirGblockIndex = m.dirGblockIndex := by
  obtain ⟨ws, -, hin⟩ := h.coming
  rw [he, List.cons_append] at hin
  obtain ⟨m', read', rfl, he', -⟩ := List.map_eq_cons_iff.mp hin.symm
  have hmsgs := h.ctrlMsgR
  rw [hm] at hmsgs
  obtain ⟨rfl, hms⟩ := List.cons.inj hmsgs
  refine ⟨read', rfl, hms, he', ?_⟩
  have hmem : m ∈ s.waiting := waiting_cons hm ▸ List.mem_cons_self
  have hkept : (flush (fun e => ddrAddr e.dirGblockIndex) id s.mem (port ++ s.stage.dirDataOut)
      (ddrAddr m.dirGblockIndex)).dirGblockIndex = (s.mem (ddrAddr m.dirGblockIndex)).dirGblockIndex :=
    flush_kept (f := DirDataE.dirGblockIndex) (h.stored (h.settled (hl.begun hmem)))
  rw [← h.entries, he'] at hkept
  exact hkept.trans (h.known m hmem)

/-- The directory serves the same message. -/
theorem serve (h : s.Makes d port done writing read asking) (hl : Locks s) {m : CtrlMsg}
    {ms : List CtrlMsg} {e : DirDataE} (hf : s.stage.regs.regCopyFlag = false)
    (hm : s.stage.ctrlMsgRIn = m :: ms) (he : d.entries (ddrAddr m.dirGblockIndex) = e) :
    directory.step .serve d = some {
      waiting := (ms ++ (if s.regRetryFlag then [s.regRetryCtrlMsg] else [])
        ++ s.ctrlMsgIn).map CtrlMsg.unlocked
      entries := Function.update d.entries (ddrAddr m.dirGblockIndex)
        (transaction s.stage.regs m e).dirData
      regs := (transaction s.stage.regs m e).regs
      sent := d.sent ++ (transaction s.stage.regs m e).out.toList } := by
  have hhold : m ∈ s.holding := List.mem_append_right _ (hm ▸ List.mem_cons_self)
  have hpos : m.unlocked = m := by
    rw [CtrlMsg.unlocked, ← (hl.held m hhold).1]
  have hw := h.waits
  rw [waiting_cons hm, List.map_cons, hpos] at hw
  show Directory.step .serve d = _
  simp only [Directory.step, hw, h.regs, hf, he, if_true]

/-- A message is served. -/
theorem take (h : s.Makes d port done writing read asking) (hl : Locks s) {m : CtrlMsg}
    {ms : List CtrlMsg} {e : DirDataE} {es : List DirDataE} (hf : s.stage.regs.regCopyFlag = false)
    (hm : s.stage.ctrlMsgRIn = m :: ms) (he : s.stage.dirDataIn = e :: es) :
    ∃ d' writing' read', directory.step .serve d = some d' ∧
      Makes { s with stage := s.stage.take m ms e es } d' port done writing' read' asking := by
  obtain ⟨read', rfl, hms, he', hindex⟩ := h.next hl hm he
  have hstep := h.serve hl hf hm he'
  obtain ⟨ws, hws, hin⟩ := h.coming
  rw [he, List.cons_append, List.map_cons] at hin
  obtain ⟨-, hin'⟩ := List.cons.inj hin
  have hmem : m ∈ s.stage.ctrlMsgRIn := hm ▸ List.mem_cons_self
  have hwaiting := waiting_cons hm
  have hset := h.settled (hl.begun (hwaiting ▸ List.mem_cons_self))
  have hcase := DirCase.of_transaction s.stage.regs m e
  obtain ⟨hlock, hne⟩ := hcase.ctrlMsgW (hl.read m hmem)
  generalize ht : transaction s.stage.regs m e = t at hcase hlock hne hstep
  have htindex : t.dirData.dirGblockIndex = m.dirGblockIndex := hcase.index.trans hindex
  have hWindex : t.ctrlMsgW.dirGblockIndex = m.dirGblockIndex := (Prod.mk.inj hlock).1
  have htake : s.stage.take m ms e es = { s.stage with
      regs := t.regs
      ctrlMsgRIn := ms
      dirDataIn := es
      ctrlMsgOut := s.stage.ctrlMsgOut ++ t.out.toList
      dirDataOut := s.stage.dirDataOut ++ [t.dirData]
      ctrlMsgWOut := s.stage.ctrlMsgWOut ++ [t.ctrlMsgW] } := by
    rw [DirStage.take, ht]
  rw [htake]
  refine ⟨_, writing ++ [t.ctrlMsgW], read', hstep, { h with
    waits := rfl
    regs := rfl
    sent := ?_
    entries := ?_
    ctrlMsgW := ?_
    blocks := ?_
    ctrlMsgR := hms
    coming := ⟨ws, hws, ?_⟩
    settled := fun _ => ⟨hset.1, fun k hk => ?_⟩
    stored := fun _ x hx => ?_
    known := fun k hk => h.known k (hwaiting ▸ List.mem_cons_of_mem m hk) }⟩
  · show _ = s.stage.ctrlMsgOut ++ _
    rw [← h.sent]
  · show _ = flush _ _ s.mem (port ++ (s.stage.dirDataOut ++ [t.dirData]))
    rw [← List.append_assoc, flush_append, ← h.entries]
    exact congrArg (fun i => Function.update d.entries (ddrAddr i) t.dirData) htindex.symm
  · show s.stage.ctrlMsgWOut ++ _ = _
    rw [h.ctrlMsgW, List.append_assoc]
  · show _ = (port ++ (s.stage.dirDataOut ++ [t.dirData])).map _
    rw [← List.append_assoc, List.map_append, List.map_append, h.blocks, List.map_singleton,
      List.map_singleton, hWindex, htindex]
  · -- the message has the lock of its block, so no other entry that has been read is this one
    refine hin'.trans (List.map_congr_left fun k hk => ?_)
    refine (Function.update_of_ne (fun heq => ?_) _ _).symm
    have hap := (List.pairwise_append.mp hl.apart).2.1
    rw [hm] at hap
    refine (List.pairwise_cons.mp hap).1 k ?_ (bucketId_of_ddrAddr heq.symm)
    rw [hms]
    exact List.mem_append_left _ hk
  · rcases List.mem_append.mp hk with hk | hk
    · exact hset.2 k hk
    · rw [List.mem_singleton.mp hk]
      exact hne
  · replace hx : x ∈ port ++ (s.stage.dirDataOut ++ [t.dirData]) := hx
    rw [← List.append_assoc] at hx
    rcases List.mem_append.mp hx with hx | hx
    · exact h.stored hset x hx
    · rw [List.mem_singleton.mp hx, htindex]
      exact h.known m (hwaiting ▸ List.mem_cons_self)

/-- The multicast goes on. -/
theorem copy (h : s.Makes d port done writing read asking) (hf : s.stage.regs.regCopyFlag = true) :
    ∃ d', directory.step .copy d = some d' ∧
      Makes { s with stage := s.stage.copy } d' port done writing read asking := by
  refine ⟨_, if_pos (h.regs ▸ hf), ?_⟩
  obtain ⟨es, hes, hin⟩ := h.coming
  exact { h with
    regs := congrArg (fun r => (copyStep r).1) h.regs
    sent := by
      show d.sent ++ _ = s.stage.ctrlMsgOut ++ _
      rw [h.sent, h.regs]
    coming := ⟨es, hes, hin⟩ }

/-- A message arrives. -/
theorem arrive {m : CtrlMsg} (h : s.Makes d port done writing read asking)
    (hok : s.InitFirst (.arrive m)) :
    Makes { s with ctrlMsgIn := s.ctrlMsgIn ++ [m] }
      { d with waiting := d.waiting ++ [m.unlocked] } port done writing read asking := by
  have hwait : waiting { s with ctrlMsgIn := s.ctrlMsgIn ++ [m] } = s.waiting ++ [m] :=
    (List.append_assoc ..).symm
  exact { h with
    waits := by
      rw [hwait, List.map_append, h.waits]
      rfl
    settled := fun _ => hok.1
    known := by
      rw [hwait]
      intro k hk
      rcases List.mem_append.mp hk with hk | hk
      · exact h.known k hk
      · rw [List.mem_singleton.mp hk]
        exact hok.2 }

end Makes

/-! ## Runs -/

/-- Some entries and messages are under way that make the pipeline the directory `d`. -/
def Made (s : DirPipeline) (d : Directory) : Prop :=
  ∃ port done writing read asking, s.Makes d port done writing read asking

/-- At the start nothing is under way. -/
theorem made_init (hi : Init s) : ∃ d, Directory.Init d ∧ s.Made d := by
  refine ⟨⟨[], s.mem, s.stage.regs, []⟩, ⟨rfl, hi.copyFlag, rfl⟩, [], [], [], [], [], ?_⟩
  have hwait : s.waiting = [] := by
    rw [waiting, hi.ctrlMsgRIn, hi.ctrlMsgIn, hi.retryFlag]
    rfl
  exact {
    waits := by rw [hwait]; rfl
    regs := rfl
    sent := hi.ctrlMsgOut.symm
    entries := by rw [hi.dirDataOut]; rfl
    going := by rw [hi.endFlagW, hi.ddrW]; exact .whole []
    ddrAw := hi.ddrAw
    ctrlMsgW := hi.ctrlMsgWOut
    acks := by rw [hi.dirAck, hi.ddrB]; rfl
    blocks := by rw [hi.dirDataOut]; rfl
    ctrlMsgR := hi.ctrlMsgRIn
    coming := ⟨[], by rw [hi.endFlagR, hi.ddrR]; exact .whole [], by rw [hi.dirDataIn]; rfl⟩
    commands := by rw [hi.ddrAr, hi.dirCmd]; rfl
    settled := fun _ => ⟨hi.dirDataInit, by rw [hi.ctrlMsgWOut]; rintro _ ⟨⟩⟩
    stored := fun _ => by rw [hi.dirDataOut]; rintro _ ⟨⟩
    known := by rw [hwait]; rintro _ ⟨⟩ }

/-- The step of the directory that a step of the pipeline is: most ticks only move something from one
stage to the next. -/
def commits (s : DirPipeline) : Action → Option DirectoryAction
  | .arrive m => some (.arrive m)
  | .toNet u =>
      match s.stage.dirDataInit with
      | e :: _ => some (.init (dirDataToDirDataE e u.agentClineAddr))
      | [] =>
          if s.stage.regs.regCopyFlag = false then
            match s.stage.ctrlMsgRIn, s.stage.dirDataIn with
            | _ :: _, _ :: _ => some .serve
            | _, _ => none
          else some .copy
  | _ => none

/-- What a tick of `dirCtrlHLS_to_net` does: it initialises an entry, goes on with the multicast, serves
a message, or waits. -/
theorem toNet_cases (s : DirPipeline) (u : Uninit) :
    (∃ x xs, s.stage.dirDataInit = x :: xs ∧ s.stage.tick u = s.stage.initDir x xs u ∧
      s.commits (.toNet u) = some (.init (dirDataToDirDataE x u.agentClineAddr))) ∨
    s.stage.dirDataInit = [] ∧
      (s.stage.regs.regCopyFlag = true ∧ s.stage.tick u = s.stage.copy ∧
          s.commits (.toNet u) = some .copy ∨
        (∃ m ms e es, s.stage.regs.regCopyFlag = false ∧ s.stage.ctrlMsgRIn = m :: ms ∧
          s.stage.dirDataIn = e :: es ∧ s.stage.tick u = s.stage.take m ms e es ∧
          s.commits (.toNet u) = some .serve) ∨
        s.stage.tick u = s.stage ∧ s.commits (.toNet u) = none) := by
  cases hx : s.stage.dirDataInit with
  | cons x xs => exact .inl ⟨x, xs, rfl, DirStage.tick_init hx u, by simp only [commits, hx]⟩
  | nil =>
      refine .inr ⟨rfl, ?_⟩
      cases hf : s.stage.regs.regCopyFlag with
      | true =>
          refine .inl ⟨rfl, DirStage.tick_copy hx hf u, ?_⟩
          simp only [commits, hx, hf, Bool.true_eq_false, if_false]
      | false =>
          refine .inr ?_
          cases hm : s.stage.ctrlMsgRIn with
          | nil =>
              refine .inr ⟨?_, ?_⟩
              · simp only [DirStage.tick, hx, hf, hm, if_true]
              · simp only [commits, hx, hf, hm, if_true]
          | cons m ms =>
              cases he : s.stage.dirDataIn with
              | nil =>
                  refine .inr ⟨?_, ?_⟩
                  · simp only [DirStage.tick, hx, hf, hm, he, if_true]
                  · simp only [commits, hx, hf, hm, he, if_true]
              | cons e es =>
                  refine .inl ⟨m, ms, e, es, rfl, rfl, rfl, DirStage.tick_take hx hf hm he u, ?_⟩
                  simp only [commits, hx, hf, hm, he, if_true]

/-- The directory takes the step that the pipeline takes, if there is one. -/
theorem Made.step {d : Directory} {a : Action} (h : s.Made d) (hl : Locks s) (hok : s.InitFirst a)
    (hs : s.step a = some s') :
    ∃ d', (s.commits a).elim (d' = d) (fun b => directory.step b d = some d') ∧ s'.Made d' := by
  obtain ⟨port, done, writing, read, asking, h⟩ := h
  cases a with
  | arrive m =>
      obtain ⟨-, hs⟩ := Option.ite_none_right_eq_some.mp hs
      cases hs
      exact ⟨_, rfl, _, _, _, _, _, h.arrive hok⟩
  | init e =>
      cases hs
      refine ⟨d, rfl, port, done, writing, read, asking, { h with
        settled := fun hb => (hok hb).elim
        stored := fun hs => ?_ }⟩
      exact (List.append_ne_nil_of_right_ne_nil _ (List.cons_ne_nil e []) hs.1).elim
  | fromNet =>
      cases hs
      obtain ⟨done', asking', h'⟩ := h.fromNet hl
      exact ⟨d, rfl, _, _, _, _, _, h'⟩
  | ar =>
      cases hs
      exact ⟨d, rfl, _, _, _, _, _, h.ar⟩
  | read =>
      cases hs
      obtain ⟨read', asking', h'⟩ := h.reads hl
      exact ⟨d, rfl, _, _, _, _, _, h'⟩
  | r =>
      cases hs
      exact ⟨d, rfl, _, _, _, _, _, h.r⟩
  | toNet u =>
      cases hs
      rcases s.toNet_cases u with
        ⟨x, xs, hx, htick, hc⟩ |
        ⟨-, ⟨hf, htick, hc⟩ | ⟨m, ms, e, es, hf, hm, he, htick, hc⟩ | ⟨htick, hc⟩⟩
      · have hb : ¬ s.Begun := by
          intro hb
          have hnil := (h.settled hb).1
          rw [hx] at hnil
          cases hnil
        obtain ⟨d', writing', hd, h'⟩ := h.initDir hl hb x xs u
        rw [htick, hc]
        exact ⟨d', hd, _, _, _, _, _, h'⟩
      · obtain ⟨d', hd, h'⟩ := h.copy hf
        rw [htick, hc]
        exact ⟨d', hd, _, _, _, _, _, h'⟩
      · obtain ⟨d', writing', read', hd, h'⟩ := h.take hl hf hm he
        rw [htick, hc]
        exact ⟨d', hd, _, _, _, _, _, h'⟩
      · rw [htick, hc]
        exact ⟨d, rfl, _, _, _, _, _, h⟩
  | awW =>
      cases hs
      obtain ⟨port', h'⟩ := h.awW
      exact ⟨d, rfl, _, _, _, _, _, h'⟩
  | write bid =>
      cases hs
      obtain ⟨port', done', writing', h'⟩ := h.stores hl bid
      exact ⟨d, rfl, _, _, _, _, _, h'⟩
  | b =>
      cases hs
      exact ⟨d, rfl, _, _, _, _, _, h.b⟩

end DirPipeline

end Ting
