/-
# `Ting.Hls.HomeAddress` — the address of a block on its home

`INIT_DIR` records in the entry of a block where the home keeps it, and no transaction changes
that.  The directory copies the address into every message it takes up, so whatever descends
from one of its own messages carries the address of the entry.  A request carries what the CPU
put there, and `generate_message` puts nothing there.
-/
import Ting.Hls.Payload
import Ting.Hls.Accounting

namespace Ting

open FabricInv BitRange

/-! ## What a directory leaves and sends -/

section Tick

variable {r : DirRegs} {m m' : CtrlMsg} {e : DirDataE} {t : DirTick}

/-- A transaction leaves the address of the entry alone. -/
theorem DirCase.addr (h : DirCase r m e t) : t.dirData.dirGblockAddr = e.dirGblockAddr := by
  cases h <;> rfl

/-- What it sends is about the block of the message and carries the address of the entry. -/
theorem DirCase.out_addr (h : DirCase r m e t) (hm : t.out = some m') :
    m'.block = m.block ∧ m'.dirGblockAddr = e.dirGblockAddr := by
  cases h <;> cases hm <;> exact ⟨rfl, rfl⟩

/-- What it sends is no request. -/
theorem DirCase.out_type (h : DirCase r m e t) (hm : t.out = some m') :
    m'.mtype.isRequest = false := by
  cases h <;> cases hm <;> rfl

/-- The message it keeps for the multicast is the one it took up. -/
theorem DirCase.regs_eq (h : DirCase r m e t) : t.regs = r ∨ t.regs.regCtrlMsg = latch m e := by
  cases h
  case writeMissShared | writeSharedNotonly => exact .inr rfl
  all_goals exact .inl rfl

end Tick

/-! ## Addresses in transit -/

/-- The fabric whose entries `INIT_DIR` has given the addresses `home`. -/
def fabricAt (qNum : ℕ) (home : Block → Addr) : TransitionSystem Fabric FabricAction :=
  ⟨fun s => s.Init ∧ ∀ b, (s.dir b).dirGblockAddr = home b, Fabric.step qNum⟩

/-- `m` carries the address of its block. -/
def CtrlMsg.AtHome (home : Block → Addr) (m : CtrlMsg) : Prop :=
  m.dirGblockAddr = home m.block

/-- The entries and whatever a directory has touched carry the addresses `home`. -/
structure Homed (home : Block → Addr) (s : Fabric) : Prop where
  dir : ∀ b, (s.dir b).dirGblockAddr = home b
  flights : ∀ f ∈ s.flights, f.packet.msg.mtype.isRequest = false → f.packet.msg.AtHome home
  dirRegs : ∀ h, (s.dirRegs h).regCopyFlag → (s.dirRegs h).regCtrlMsg.AtHome home
  ccRegs : ∀ n, (s.ccRegs n).regCopyFlag → (s.ccRegs n).regCtrlMsg.AtHome home

namespace Homed

variable {qNum : ℕ} {home : Block → Addr} {s s' : Fabric}

theorem init (h : (fabricAt qNum home).init s) : Homed home s where
  dir := h.2
  flights f hf := by
    rw [h.1.flights] at hf
    cases hf
  dirRegs d hd := by
    rw [h.1.dirRegs d] at hd
    cases hd
  ccRegs n hn := by
    rw [h.1.ccRegs n] at hn
    cases hn

/-- Registers change and messages come and go. -/
theorem change (h : Homed home s) (l : List Flight) (hdir : ∀ b, (s'.dir b).dirGblockAddr = home b)
    (hdirRegs : ∀ d, s'.dirRegs d = s.dirRegs d ∨ (s'.dirRegs d).regCtrlMsg.AtHome home)
    (hccRegs : ∀ n, s'.ccRegs n = s.ccRegs n ∨
      ((s'.ccRegs n).regCopyFlag → (s'.ccRegs n).regCtrlMsg.AtHome home))
    (hflights : ∀ f ∈ s'.flights, f ∈ s.flights ∨ f ∈ l)
    (hl : ∀ f ∈ l, f.packet.msg.mtype.isRequest = false → f.packet.msg.AtHome home) :
    Homed home s' where
  dir := hdir
  flights f hf := (hflights f hf).elim (h.flights f) (hl f)
  dirRegs d hd := by
    rcases hdirRegs d with he | hhome
    · rw [he] at hd ⊢
      exact h.dirRegs d hd
    · exact hhome
  ccRegs n hn := by
    rcases hccRegs n with he | hhome
    · rw [he] at hn ⊢
      exact h.ccRegs n hn
    · exact hhome hn

/-- The directory takes up message `p`. -/
theorem dirTick (h : Homed home s) {i : ℕ} {p : Packet}
    (hdir : s'.dir = Function.update s.dir p.msg.block (s.tick p).dirData)
    (hdirRegs : s'.dirRegs = s.dirRegs ∨
      s'.dirRegs = Function.update s.dirRegs p.msg.dirGblockNodeID (s.tick p).regs)
    (hccRegs : s'.ccRegs = s.ccRegs)
    (hflights : s'.flights = s.flights.eraseIdx i ++ Fabric.send p.ticket (s.tick p).out) :
    Homed home s' := by
  have hcase := s.tick_case p
  refine h.change (Fabric.send p.ticket (s.tick p).out) (fun b => ?_) (fun d => ?_)
    (fun n => .inl (congrFun hccRegs n)) (fun f hf => ?_) fun f hf _ => ?_
  · rw [hdir]
    rcases eq_or_ne b p.msg.block with rfl | hb
    · rw [Function.update_self, hcase.addr]
      exact h.dir _
    · rw [Function.update_of_ne hb]
      exact h.dir b
  · rcases hdirRegs with hregs | hregs
    · exact .inl (congrFun hregs d)
    rw [hregs]
    rcases eq_or_ne d p.msg.dirGblockNodeID with rfl | hne
    · rw [Function.update_self]
      refine hcase.regs_eq.imp_right fun hr => ?_
      rw [hr]
      exact h.dir p.msg.block
    · exact .inl (Function.update_of_ne hne _ _)
  · rw [hflights] at hf
    exact (List.mem_append.mp hf).imp_left List.mem_of_mem_eraseIdx
  · obtain ⟨m, hm, rfl⟩ := mem_send.mp hf
    obtain ⟨hblock, haddr⟩ := hcase.out_addr hm
    exact haddr.trans ((h.dir _).trans (congrArg home hblock.symm))

/-- The directory of node `d` goes on with its multicast. -/
theorem dirCopy (h : Homed home s) (hi : FabricInv s) {d : NodeId}
    (hr : (s.dirRegs d).regCopyFlag) : Homed home (s.afterDirCopy d) := by
  obtain ⟨T, hT, hk, hm⟩ := hi.dirDebt d hr
  have hhome := h.dirRegs d hr
  have hcopy := copyStepped (hi.dirRouted d) hr hk hm
  have hregs : (copyStep (s.dirRegs d)).1.regCtrlMsg = (s.dirRegs d).regCtrlMsg := by
    generalize copyStep (s.dirRegs d) = t at hcopy
    cases hcopy <;> rfl
  have hout : ∀ m, (copyStep (s.dirRegs d)).2 = some m → m.AtHome home := by
    generalize copyStep (s.dirRegs d) = t at hcopy
    intro m ht
    cases hcopy <;> cases ht
    exact hhome
  refine h.change (Fabric.send (s.dirTicket d) (copyStep (s.dirRegs d)).2) h.dir (fun d' => ?_)
    (fun n => .inl rfl) (fun f hf => List.mem_append.mp hf) fun f hf _ => ?_
  · simp only [Fabric.afterDirCopy]
    rcases eq_or_ne d' d with rfl | hne
    · rw [Function.update_self, hregs]
      exact .inr hhome
    · exact .inl (Function.update_of_ne hne _ _)
  · obtain ⟨m, hm, rfl⟩ := mem_send.mp hf
    exact hout m hm

/-- A cache controller takes up message `p`. -/
theorem ccTick (h : Homed home s) {i : ℕ} {p : Packet}
    (hhome : p.msg.AtHome home) (ht : CcTicked qNum s i p s') : Homed home s' := by
  cases ht with
  | acked T =>
      refine h.change [⟨.sys _ _, ⟨p.ticket, p.msg.forThread .sys⟩⟩,
        ⟨.net, ⟨p.ticket, (p.msg.forThread .sys).toHome T.kind.ack⟩⟩] h.dir (fun _ => .inl rfl)
        (fun _ => .inl rfl)
        (fun f hf => (List.mem_append.mp hf).imp_left List.mem_of_mem_eraseIdx) fun f hf _ => ?_
      simp only [List.mem_cons, List.not_mem_nil, or_false] at hf
      rcases hf with rfl | rfl <;> exact hhome
  | shipped T =>
      refine h.change [⟨.sys _ _, ⟨p.ticket, p.msg.forThread .sys⟩⟩,
        ⟨.net, ⟨p.ticket, (p.msg.forThread .sys).toRequester T.kind.grant⟩⟩] h.dir
        (fun _ => .inl rfl) (fun n => ?_)
        (fun f hf => (List.mem_append.mp hf).imp_left List.mem_of_mem_eraseIdx) fun f hf _ => ?_
      · rcases eq_or_ne n p.msg.agentClineNodeID with rfl | hne
        · simp only [Function.update_self]
          exact .inr fun _ => hhome
        · exact .inl (Function.update_of_ne hne _ _)
      · simp only [List.mem_cons, List.not_mem_nil, or_false] at hf
        rcases hf with rfl | rfl <;> exact hhome
  | answered =>
      refine h.change [⟨.app _ _, ⟨p.ticket, p.msg.forThread .app⟩⟩] h.dir (fun _ => .inl rfl)
        (fun _ => .inl rfl)
        (fun f hf => (List.mem_append.mp hf).imp_left List.mem_of_mem_eraseIdx) fun f hf _ => ?_
      cases List.mem_singleton.mp hf
      exact hhome

/-- The cache controller of node `n` sends what it owes. -/
theorem ccCopy (h : Homed home s) (hi : FabricInv s) {n : NodeId}
    (hr : (s.ccRegs n).regCopyFlag) : Homed home (s.afterCcCopy n) := by
  obtain ⟨T, hT, hk⟩ := hi.ccDebt n hr
  have hhome := h.ccRegs n hr
  unfold Fabric.afterCcCopy
  rw [cacheCtrlCopy_eq (hi.ccRouted n) hr hk]
  refine h.change (Fabric.send (s.ccTicket n) (some ((s.ccRegs n).regCtrlMsg.toHome T.kind.ack)))
    h.dir (fun _ => .inl rfl) (fun k => ?_) (fun f hf => List.mem_append.mp hf) fun f hf _ => ?_
  · rcases eq_or_ne k n with rfl | hne
    · simp only [Function.update_self]
      exact .inr nofun
    · exact .inl (Function.update_of_ne hne _ _)
  · obtain ⟨m, hm, rfl⟩ := mem_send.mp hf
    cases hm
    exact hhome

/-- Every step of the fabric. -/
theorem step (h : Homed home s) (hi : FabricInv s) {a : FabricAction}
    (hs : Fabric.step qNum a s = some s') : Homed home s' := by
  cases Fabric.Stepped.of_step hs with
  | inject m hm =>
      refine h.change [_] h.dir (fun _ => .inl rfl) (fun _ => .inl rfl)
        (fun f hf => List.mem_append.mp hf) fun f hf hq => ?_
      cases List.mem_singleton.mp hf
      cases hm.symm.trans hq
  | dirTick i p hp hd hr =>
      have hticked := hi.dirTicked hp hd hr
      generalize s.afterDirTick i p = s' at hticked
      cases hticked with
      | answered => exact h.dirTick rfl (.inl rfl) rfl rfl
      | opened => exact h.dirTick rfl (.inr rfl) rfl rfl
      | acked => exact h.dirTick rfl (.inl rfl) rfl rfl
  | dirCopy d hr => exact h.dirCopy hi hr
  | ccTick i p hp hd hr =>
      have hq : p.msg.mtype.isRequest = false := by
        cases ht : p.msg.mtype.isRequest
        · rfl
        · rw [RawMessageType.toDir, ht] at hd
          cases hd
      have hticked : CcTicked qNum s i p (s.afterCcTick qNum i p) := hi.ccTicked hp hd hr
      exact h.ccTick (h.flights _ (List.mem_of_getElem? hp) hq) hticked
  | ccCopy n hr => exact h.ccCopy hi hr
  | pop loc i p hl hp hi =>
      exact h.change [] h.dir (fun _ => .inl rfl) (fun _ => .inl rfl)
        (fun f hf => .inl (List.mem_of_mem_eraseIdx hf)) fun f hf => absurd hf List.not_mem_nil

end Homed

section Runs

variable {qNum : ℕ} {home : Block → Addr} {s : Fabric}

/-- Addresses do not matter to what the fabric does. -/
theorem fabricAt_reachable (h : (fabricAt qNum home).Reachable s) : (fabric qNum).Reachable s :=
  TransitionSystem.ReachableWhen.map (T := fabricAt qNum home) (U := fabric qNum) id
    (fun _ h0 => .init h0.1)
    (fun _ _ _ _ hr hs => .step hr trivial hs) h

theorem homed (h : (fabricAt qNum home).Reachable s) : Homed home s :=
  TransitionSystem.Reachable.invariant (fun _ => .init)
    (fun _ _ _ hr hh hs => hh.step (fabric_inv (fabricAt_reachable hr)) hs) h

/-! ## The address that is written -/

/-- The request that `start_evict` sends for a dirty line, as the FPGA decodes it; `junk` and `m`
are what the host's and the FPGA's variables hold before. -/
def evictDirty (junk : RawMessage) (n : NodeId) (τ : ThreadId) (b : Block) (data : Addr)
    (index : BitVec 32) (wlast : BitVec 1) (wstrb : BitVec 64) (m : StructCtrlMsg) :
    StructCtrlMsg :=
  h2cWToCtrlMsg ⟨ofLeBytes (generateMessage junk .rEvictDirty n τ b data index).bytes, wlast,
    wstrb⟩ m

theorem evictDirty_eq (junk : RawMessage) (n : NodeId) (τ : ThreadId) (b : Block) (data : Addr)
    (index : BitVec 32) (wlast : BitVec 1) (wstrb : BitVec 64) (m : StructCtrlMsg) :
    (evictDirty junk n τ b data index wlast wstrb m).mtype = RawMessageType.rEvictDirty.code ∧
      (evictDirty junk n τ b data index wlast wstrb m).dirGblockAddr = junk.dirGblockAddr := by
  have hget : ∀ w : StructH2cW, (h2cWToCtrlMsg w m).mtype = (getFields w.wdata m).mtype ∧
      (h2cWToCtrlMsg w m).dirGblockAddr = (getFields w.wdata m).dirGblockAddr :=
    fun w => ⟨rfl, rfl⟩
  unfold evictDirty
  rw [(hget _).1, (hget _).2, RawMessage.getFields_ofLeBytes, RawMessage.ofBytes_bytes]
  exact ⟨rfl, rfl⟩

section Arrive

variable {m rx : StructCtrlMsg} {payload payload' : BitVec 512} {tx : StructNetRxtx}

/-- A payload for a block is written to the address that its message carries. -/
theorem deparser_toGblock {t : RawMessageType} (hm : m.mtype = t.code) (ht : t.toGblock) :
    (m.overNet payload payload' tx rx).deparser = (.dc, some m.dirGblockAddr) := by
  have hdata : t.hasData := by cases t <;> first | rfl | cases ht
  have hdir : t.toDir := by cases t <;> first | rfl | cases ht
  have harrived : ∀ m' : StructCtrlMsg, m'.mtype = t.code → m'.dataMsgLength = dsmCacheLineSize →
      m'.deparser = (.dc, some m'.dirGblockAddr) := by
    intro m' hm' hlen
    refine Prod.ext ((StructCtrlMsg.deparser_port hm').trans (if_pos hdir)) ?_
    rw [StructCtrlMsg.deparser_addr hm' (by rw [hlen]; decide), if_pos ht]
  rw [StructCtrlMsg.overNet_of_type hm, if_pos hdata]
  exact harrived _ hm rfl

end Arrive

/-- Where the payloads of a block go.  The dirty line that the owner of a block sends to its home
is written to the address in the entry of the block, which is also where the home reads the block
from.  An evicted line is written there exactly when the field that `generate_message` leaves
as it is happens to hold that address. -/
theorem written_home (h : (fabricAt qNum home).Reachable s) (b : Block) :
    (s.dir b).dirGblockAddr = home b ∧
    (∀ junk n τ data index wlast wstrb m payload payload' tx rx,
      ((evictDirty junk n τ b data index wlast wstrb m).overNet payload payload' tx rx).deparser
          = (.dc, some (s.dir b).dirGblockAddr) ↔ junk.dirGblockAddr = home b) ∧
    (∀ p : Packet, ⟨.net, p⟩ ∈ s.flights → p.msg.block = b →
      p.msg.mtype = .agent2DirReadMissDirtyAckdata → ∀ rest payload payload' tx rx,
      ((p.msg.toStruct rest).overNet payload payload' tx rx).deparser
        = (.dc, some (s.dir b).dirGblockAddr)) ∧
    ∀ p : Packet, ⟨.net, p⟩ ∈ s.flights → p.msg.block = b → p.msg.mtype.fromGblock → ∀ rest,
      (p.msg.toStruct rest).dataMsgFetch.1 = some (s.dir b).dirGblockAddr := by
  have hh := homed h
  refine ⟨hh.dir b, fun junk n τ data index wlast wstrb m payload payload' tx rx => ?_,
    fun p hp hb hm rest payload payload' tx rx => ?_, fun p hp hb hm rest => ?_⟩
  · obtain ⟨hm, ha⟩ := evictDirty_eq junk n τ b data index wlast wstrb m
    rw [deparser_toGblock hm rfl, ha, hh.dir b]
    simp only [Prod.mk.injEq, true_and, Option.some.injEq]
  · have hhome := hh.flights _ hp (by rw [hm]; rfl)
    rw [deparser_toGblock (t := p.msg.mtype) rfl (by rw [hm]; rfl), hh.dir b, ← hb]
    exact congrArg (fun a => (StructCtrlMsg.Port.dc, some a)) hhome
  · have hq : p.msg.mtype.isRequest = false := by
      cases ht : p.msg.mtype <;> rw [ht] at hm <;> first | rfl | cases hm
    have hc : p.msg.mtype.fromCline = false := by
      cases ht : p.msg.mtype <;> rw [ht] at hm <;> first | rfl | cases hm
    rw [StructCtrlMsg.dataMsgFetch_of_type (t := p.msg.mtype) rfl, hc, hm, hh.dir b, ← hb]
    exact congrArg some (hh.flights _ hp hq)

end Runs

/-! ## A run -/

/-- A page for every index. -/
def pageOf (b : Block) : Addr :=
  (b.index.zeroExtend 64 + 1) <<< 12

/-- A fabric after `INIT_DIR`. -/
def Fabric.startAt (home : Block → Addr) : Fabric :=
  { Fabric.start with dir := fun b => { Fabric.start.dir b with dirGblockAddr := home b } }

theorem Fabric.startAt_init (qNum : ℕ) (home : Block → Addr) :
    (fabricAt qNum home).init (Fabric.startAt home) :=
  ⟨⟨fun _ => ⟨rfl, rfl, fun _ => rfl⟩, fun _ => rfl, fun _ => rfl, fun _ => rfl, rfl, fun _ => rfl,
    fun _ => rfl⟩, fun _ => rfl⟩

/-- Node 1 writes block 7 of node 0, node 2 reads it, and node 1 sends it to both. -/
def writebackRun : List FabricAction :=
  [.inject (request .rWriteMiss 1), .dirTick 0, .inject (request .rReadMiss 2), .dirTick 1,
    .ccTick 1, .ccCopy 1]

/-- The state that run ends in. -/
def writebackState : Fabric :=
  ((fabricAt 8 pageOf).run writebackRun (Fabric.startAt pageOf)).get (by decide)

theorem writebackState_reachable : (fabricAt 8 pageOf).Reachable writebackState :=
  .of_run (.init (Fabric.startAt_init 8 pageOf)) (Option.some_get _).symm

theorem written_home_readMiss : ∃ p : Packet, p.msg.mtype = .agent2DirReadMissDirtyAckdata ∧
    ∀ rest payload payload' tx rx,
      ((p.msg.toStruct rest).overNet payload payload' tx rx).deparser = (.dc, some 0x8000) := by
  refine ⟨(writebackState.flights.get ⟨3, by decide⟩).packet, by decide,
    fun rest payload payload' tx rx => ?_⟩
  exact (written_home writebackState_reachable ⟨0, 7⟩).2.2.1 _ (by decide) (by decide) (by decide)
    rest payload payload' tx rx

/-- A line of block 7 that node 1 evicts is written to address 0 where `m_send` happens to be
all zeros. -/
theorem evicted_elsewhere : ¬ ∀ (qNum : ℕ) (home : Block → Addr) (s : Fabric),
    (fabricAt qNum home).Reachable s → ∀ b junk n τ data index wlast wstrb m payload payload' tx rx,
      ((evictDirty junk n τ b data index wlast wstrb m).overNet payload payload' tx rx).deparser
        = (.dc, some (s.dir b).dirGblockAddr) := by
  intro hall
  have hwritten := hall 8 pageOf _ (.init (Fabric.startAt_init 8 pageOf)) ⟨0, 7⟩
    ⟨0, 0, 0, 0, 0, 0, 0, 0, 0, 0, fun _ => 0, 0, 0, 0, fun _ => 0, 0, 0⟩ 1 0 0 0 0 0
    ⟨0, 0, 0, 0, 0, 0, 0, 0, 0, 0, fun _ => 0, 0, 0, 0, 0, 0, 0, 0, 0⟩ 0 0 ⟨0, 0, 0⟩
    ⟨0, 0, 0, 0, 0, 0, 0, 0, 0, 0, fun _ => 0, 0, 0, 0, 0, 0, 0, 0, 0⟩
  obtain ⟨hm, ha⟩ := evictDirty_eq
    ⟨0, 0, 0, 0, 0, 0, 0, 0, 0, 0, fun _ => 0, 0, 0, 0, fun _ => 0, 0, 0⟩ 1 0 ⟨0, 7⟩ 0 0 0 0
    ⟨0, 0, 0, 0, 0, 0, 0, 0, 0, 0, fun _ => 0, 0, 0, 0, 0, 0, 0, 0, 0⟩
  rw [deparser_toGblock hm rfl, ha] at hwritten
  exact absurd hwritten (by decide)

end Ting
