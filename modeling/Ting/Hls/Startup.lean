/-
# `Ting.Hls.Startup` — a node starts

The constructor of `DSM` writes an `INIT_DIR` message for each block of its node over the bridge,
and after them an `INIT_NET` message for each node.  Only then are there threads that write
requests.  `h2cCtrlMsgDeliverHLS` deals the words out; the directory stores the entries, and `parser`
fills its table, each at its own pace.

When nothing of this is under way any more, every block has an entry that says that nobody has it,
and every node an address.  From then on the stages serve what arrives as the directory does that
begins with these entries.
-/
import Ting.Hls.DdrPort
import Ting.Hls.FirstMessage
import Ting.Hls.Framing
import Ting.Hls.H2cDeliver

namespace Ting

open BitRange Relation WriteQueue

/-- What the constructor of `DSM` reads: the number of blocks, which `DSMConfig` bounds, what
`sb_aligned_calloc` returns for each, and `mac_vec`. -/
structure DsmInit where
  gblockNumPerNode : ℕ
  gblockAddr : ℕ → Addr
  macAddr : NodeId → Fin 6 → BitVec 8
  le : gblockNumPerNode ≤ maxGblockNumPerNode

namespace DsmInit

/-- The message for block `i`; the constructor assigns a part of it. -/
def initDirMsg (c : DsmInit) (junk : RawMessage) (i : ℕ) : RawMessage :=
  { junk with
    mtype := RawMessageType.initDir.code
    dirGblockAddr := c.gblockAddr i
    dirGblockIndex := BitVec.ofNat 32 i
    dirGblockBitmap := fun _ => 0
    initState := RawState.sUnshared.code }

/-- The message for node `n`. -/
def initNetMsg (c : DsmInit) (junk : RawMessage) (n : NodeId) : RawMessage :=
  { junk with
    mtype := RawMessageType.initNet.code
    dirGblockNodeID := BitVec.ofNat 8 n
    initMac := c.macAddr n }

/-- What the constructor sends after `k` messages. -/
def next (c : DsmInit) (junk : RawMessage) (k : ℕ) : Option RawMessage :=
  if k < c.gblockNumPerNode then some (c.initDirMsg junk k)
  else if k < c.gblockNumPerNode + 8 then
    some (c.initNetMsg junk (Fin.ofNat 8 (k - c.gblockNumPerNode)))
  else none

/-- What `h2c_w_to_dir_data` makes of the message for block `i`. -/
def dirData (c : DsmInit) (i : ℕ) : StructDirData :=
  ⟨c.gblockAddr i, BitVec.ofNat 32 i, fun _ => 0, RawState.sUnshared.code, 0⟩

/-- The address of node `n`, as `parser` has it. -/
def mac (c : DsmInit) (n : NodeId) : BitVec 48 := ofLeBytes (List.ofFn (c.macAddr n))

/-- What `h2c_w_to_net_init_msg` makes of the message for node `n`. -/
def netInit (c : DsmInit) (n : ℕ) : StructNetInitMsg :=
  ⟨BitVec.ofNat 8 n, c.mac (Fin.ofNat 8 n)⟩

/-- The entry of block `i` before anybody has asked for it. -/
structure Loaded (c : DsmInit) (e : DirDataE) (i : ℕ) : Prop where
  unshared : e.IsInit
  addr : e.dirGblockAddr = c.gblockAddr i
  index : e.dirGblockIndex = BitVec.ofNat 32 i

/-- A directory that nothing has been sent to, with the entries of the first `k` blocks. -/
structure Loads (c : DsmInit) (k : ℕ) (d : Directory) : Prop where
  init : d.Init
  loaded : ∀ i < k, c.Loaded (d.entries (ddrAddr (BitVec.ofNat 32 i))) i

end DsmInit

/-! ## The node -/

/-- The parts of a node that a word from the host reaches; `sent` counts what the constructor has
sent, `requested` is what the threads have sent. -/
structure Startup where
  sent : ℕ
  requested : List RawMessage
  deliver : H2cDeliver
  parser : Parser
  dir : DirPipeline

/-- A message of the constructor or of a thread, a tick of a stage, or a step of the directory. -/
inductive StartupAction
  | send (junk : RawMessage) (wlast : BitVec 1) (wstrb : BitVec 64)
  | request (m : RawMessage) (wlast : BitVec 1) (wstrb : BitVec 64)
  | deliver (m : StructCtrlMsg)
  /-- A word of `dir_data_init`. -/
  | initDir (x : DirData)
  /-- A word of `net_init_msg`. -/
  | initNet
  | parser (u : ParserUninit)
  | dir (a : DirPipeline.Action)

namespace Startup

/-- The host writes a message. -/
def write (s : Startup) (m : RawMessage) (wlast : BitVec 1) (wstrb : BitVec 64) : Startup :=
  { s with deliver := { s.deliver with h2cW := s.deliver.h2cW ++ [m.toH2cW wlast wstrb] } }

/-- The step function. -/
def step (c : DsmInit) (a : StartupAction) (s : Startup) : Option Startup :=
  match a with
  | .send junk wlast wstrb =>
      (c.next junk s.sent).map fun m => { s.write m wlast wstrb with sent := s.sent + 1 }
  | .request m wlast wstrb =>
      if c.gblockNumPerNode + 8 ≤ s.sent ∧ m.mtype ≠ RawMessageType.initDir.code ∧
          m.mtype ≠ RawMessageType.initNet.code then
        some { s.write m wlast wstrb with requested := s.requested ++ [m] }
      else none
  | .deliver m => some { s with deliver := s.deliver.tick m }
  | .initDir x =>
      match s.deliver.dirDataInit with
      | e :: es =>
          if e = x.toStruct then
            (s.dir.step (.init x)).map fun p =>
              { s with deliver := { s.deliver with dirDataInit := es }, dir := p }
          else none
      | [] => none
  | .initNet =>
      match s.deliver.netInitMsg with
      | m :: ms => some { s with
          deliver := { s.deliver with netInitMsg := ms }
          parser := { s.parser with netInitMsg := s.parser.netInitMsg ++ [m] } }
      | [] => none
  | .parser u => some { s with parser := s.parser.tick u }
  | .dir (.init _) => none
  | .dir a => (s.dir.step a).map fun p => { s with dir := p }

/-- Before the constructor runs. -/
structure Init (s : Startup) : Prop where
  sent : s.sent = 0
  requested : s.requested = []
  h2cW : s.deliver.h2cW = []
  ctrlMsgOut : s.deliver.ctrlMsgOut = []
  netInitMsg : s.deliver.netInitMsg = []
  dirDataInit : s.deliver.dirDataInit = []
  regCount : s.deliver.regCount = 0
  parser : s.parser.netInitMsg = []
  dir : s.dir.Init

/-- The entries under way to the directory, the first one first. -/
def dirInits (s : Startup) : List StructDirData :=
  s.dir.stage.dirDataInit.map DirData.toStruct ++ s.deliver.dirInits

/-- The addresses under way to the table. -/
def netInits (s : Startup) : List StructNetInitMsg :=
  s.parser.netInitMsg ++ s.deliver.netInits

/-- The constructor has returned, and all that it has sent is where it belongs. -/
structure Started (c : DsmInit) (s : Startup) : Prop where
  sent : c.gblockNumPerNode + 8 ≤ s.sent
  dirInits : s.dirInits = []
  netInits : s.netInits = []
  settled : s.dir.Settled

/-- Messages come when the node has started, and for its blocks; and the position of the lock that
`dirCtrlHLS_to_net` leaves open in the message of an initialised entry is in the table. -/
def Orderly (c : DsmInit) (s : Startup) : StartupAction → Prop
  | .dir (.arrive m) => s.Started c ∧ m.dirGblockIndex.toNat < c.gblockNumPerNode
  | .dir (.toNet u) => u.ctrlMsg.lockPosition.toNat < lockBktSize
  | _ => True

end Startup

/-- A node from its reset on. -/
def startup (c : DsmInit) : TransitionSystem Startup StartupAction :=
  ⟨Startup.Init, Startup.step c⟩

/-! ## The entries -/

namespace DsmInit

variable {c : DsmInit} {d d' : Directory} {x : DirData} {i j k : ℕ}

/-- Each block has a place of its own. -/
theorem ddrAddr_inj (hi : i < c.gblockNumPerNode) (hj : j < c.gblockNumPerNode)
    (h : ddrAddr (BitVec.ofNat 32 i) = ddrAddr (BitVec.ofNat 32 j)) : i = j := by
  have hle := c.le
  have hnamed : ∀ n < c.gblockNumPerNode, (BitVec.ofNat 32 n).toNat = n := by
    intro n hn
    unfold maxGblockNumPerNode at hle
    rw [BitVec.toNat_ofNat]
    omega
  have haddr : ∀ n < c.gblockNumPerNode, (ddrAddr (BitVec.ofNat 32 n)).toNat = n * 128 := by
    intro n hn
    rw [ddrAddr_toNat (by rw [hnamed n hn]; omega), hnamed n hn]
  have := congrArg BitVec.toNat h
  rw [haddr i hi, haddr j hj] at this
  omega

/-- The entry that the message of a block becomes. -/
theorem Loaded.of_toStruct (h : x.toStruct = c.dirData i) (addr : NodeId → Addr) :
    c.Loaded (dirDataToDirDataE x addr) i := by
  have hbitmap : ∀ n, x.dirGblockBitmap n = false := by
    intro n
    have hn := congrFun (congrArg StructDirData.dirGblockBitmap h) n
    replace hn : (if x.dirGblockBitmap n then 1 else 0 : BitVec 8) = 0 := hn
    cases hx : x.dirGblockBitmap n with
    | false => rfl
    | true =>
        rw [hx] at hn
        cases hn
  refine ⟨⟨RawState.code_injective ?_, ?_, hbitmap⟩, ?_, ?_⟩
  · exact congrArg StructDirData.state h
  · exact congrArg StructDirData.replicaCount h
  · exact congrArg StructDirData.dirGblockAddr h
  · exact congrArg StructDirData.dirGblockIndex h

/-- The entry of the next block. -/
theorem Loads.step (h : c.Loads k d) (hk : k < c.gblockNumPerNode) (hx : x.toStruct = c.dirData k)
    {addr : NodeId → Addr} (hs : directory.step (.init (dirDataToDirDataE x addr)) d = some d') :
    c.Loads (k + 1) d' := by
  have he := Loaded.of_toStruct hx addr
  cases hs
  refine ⟨⟨h.init.waiting, h.init.copyFlag, h.init.sent⟩, fun i hi => ?_⟩
  show c.Loaded (Function.update d.entries (ddrAddr x.dirGblockIndex) _ _) i
  rw [show x.dirGblockIndex = BitVec.ofNat 32 k from he.index]
  rcases eq_or_ne i k with rfl | hne
  · rw [Function.update_self]
    exact he
  · have hik : i < k := by omega
    rw [Function.update_of_ne fun heq => hne (ddrAddr_inj (by omega) hk heq)]
    exact h.loaded i hik

/-- Whatever the constructor sends initialises an entry or an address. -/
theorem next_mtype {m junk : RawMessage} (hm : c.next junk k = some m) :
    m.mtype = RawMessageType.initDir.code ∨ m.mtype = RawMessageType.initNet.code := by
  unfold next at hm
  split at hm
  next =>
    cases hm
    exact .inl rfl
  next =>
    obtain ⟨-, hm⟩ := Option.ite_none_right_eq_some.mp hm
    cases hm
    exact .inr rfl

end DsmInit

/-! ## What is under way -/

namespace Startup

variable {c : DsmInit} {s s' : Startup} {m : RawMessage} {wlast : BitVec 1} {wstrb : BitVec 64}

/-- A message that is written is under way to the place that its type says. -/
theorem write_inits (s : Startup) (m : RawMessage) (wlast : BitVec 1) (wstrb : BitVec 64) :
    (s.write m wlast wstrb).dirInits = s.dirInits ++
        (if m.mtype = RawMessageType.initDir.code then
          [⟨m.dirGblockAddr, m.dirGblockIndex, m.dirGblockBitmap, m.initState, 0⟩] else []) ∧
      (s.write m wlast wstrb).netInits = s.netInits ++
        (if m.mtype = RawMessageType.initNet.code then
          [⟨m.dirGblockNodeID, ofLeBytes (List.ofFn m.initMac)⟩] else []) := by
  obtain ⟨hdir, hnet, -⟩ := H2cDeliver.kinds (m.toH2cW wlast wstrb)
  rw [m.extractMtype_toH2cW] at hdir hnet
  have hd := m.h2cWToDirData_toH2cW wlast wstrb
  have hn := m.h2cWToNetInitMsg_toH2cW wlast wstrb
  unfold write dirInits netInits H2cDeliver.dirInits H2cDeliver.netInits
  constructor
  · split
    next h => simp [hdir, hd, h]
    next h => simp [hdir, h]
  · split
    next h => simp [hnet, hn, h]
    next h => simp [hnet, h]

theorem write_requests (s : Startup) (m : RawMessage) (wlast : BitVec 1) (wstrb : BitVec 64) :
    (s.write m wlast wstrb).deliver.requests = s.deliver.requests ++
      (if m.mtype = RawMessageType.initDir.code ∨ m.mtype = RawMessageType.initNet.code then []
        else [m.toH2cW wlast wstrb]) := by
  obtain ⟨hdir, hnet, hreq⟩ := H2cDeliver.kinds (m.toH2cW wlast wstrb)
  rw [m.extractMtype_toH2cW] at hdir hnet
  rw [hdir, hnet] at hreq
  unfold write H2cDeliver.requests
  split
  next h =>
    rcases h with h | h <;> simp [hreq, h]
  next h =>
    obtain ⟨hd, hn⟩ := not_or.mp h
    simp [hreq, hd, hn]

/-- What the constructor sends adds one entry, until there is one for each block, and then one
address. -/
theorem send_inits {junk : RawMessage} (hm : c.next junk s.sent = some m)
    (wlast : BitVec 1) (wstrb : BitVec 64) :
    s.sent < c.gblockNumPerNode ∧
        (s.write m wlast wstrb).dirInits = s.dirInits ++ [c.dirData s.sent] ∧
        (s.write m wlast wstrb).netInits = s.netInits ∨
      c.gblockNumPerNode ≤ s.sent ∧ s.sent < c.gblockNumPerNode + 8 ∧
        (s.write m wlast wstrb).dirInits = s.dirInits ∧
        (s.write m wlast wstrb).netInits = s.netInits ++ [c.netInit (s.sent - c.gblockNumPerNode)] := by
  obtain ⟨hdir, hnet⟩ := s.write_inits m wlast wstrb
  unfold DsmInit.next at hm
  split at hm
  next hlt =>
    cases hm
    refine .inl ⟨hlt, hdir, hnet.trans ?_⟩
    exact List.append_nil _
  next hle =>
    obtain ⟨hlt, hm⟩ := Option.ite_none_right_eq_some.mp hm
    cases hm
    refine .inr ⟨Nat.le_of_not_lt hle, hlt, hdir.trans (List.append_nil _), hnet.trans ?_⟩
    have hk : (s.sent - c.gblockNumPerNode) % 8 = s.sent - c.gblockNumPerNode := by omega
    show s.netInits ++ [⟨BitVec.ofNat 8 ((s.sent - c.gblockNumPerNode) % 8), _⟩] = _
    rw [hk]
    rfl

/-- A tick of `parser` takes at most one address. -/
theorem parser_tick (p : Parser) (u : ParserUninit) :
    p.netInitMsg = [] ∧ (p.tick u).netInitMsg = [] ∧ (p.tick u).macTable = p.macTable ∨
      ∃ m, p.netInitMsg = m :: (p.tick u).netInitMsg ∧
        ∀ h : m.nodeId.toNat < 8,
          (p.tick u).macTable = Function.update p.macTable ⟨m.nodeId.toNat, h⟩ m.nodeMac := by
  have hsend : ∀ q : Parser, (q.send u).netInitMsg = q.netInitMsg ∧
      (q.send u).macTable = q.macTable := by
    intro q
    unfold Parser.send
    split
    next => split <;> exact ⟨rfl, rfl⟩
    next => exact ⟨rfl, rfl⟩
    next => split <;> exact ⟨rfl, rfl⟩
  obtain ⟨hinit, htable⟩ := hsend p.readInit
  unfold Parser.tick
  rw [hinit, htable]
  unfold Parser.readInit
  split
  next m ms hm =>
    refine .inr ⟨m, ?_, fun h => ?_⟩
    · split <;> exact hm
    · rw [dif_pos h]
  next hm => exact .inl ⟨hm, hm, rfl⟩

/-- What a step does: a message of the constructor is one entry or one address more, a word moves to
the next stream, an address goes into the table, or the directory takes a step. -/
inductive Effect (c : DsmInit) (s s' : Startup) (a : StartupAction) : Prop
  | entry (hlt : s.sent < c.gblockNumPerNode) (hsent : s'.sent = s.sent + 1)
      (hd : s'.dirInits = s.dirInits ++ [c.dirData s.sent]) (hn : s'.netInits = s.netInits)
      (hp : s'.parser.macTable = s.parser.macTable) (hdir : s'.dir = s.dir)
  | address (hle : c.gblockNumPerNode ≤ s.sent) (hlt : s.sent < c.gblockNumPerNode + 8)
      (hsent : s'.sent = s.sent + 1) (hd : s'.dirInits = s.dirInits)
      (hn : s'.netInits = s.netInits ++ [c.netInit (s.sent - c.gblockNumPerNode)])
      (hp : s'.parser.macTable = s.parser.macTable) (hdir : s'.dir = s.dir)
  | moved (hsent : s'.sent = s.sent) (hd : s'.dirInits = s.dirInits)
      (hn : s'.netInits = s.netInits) (hp : s'.parser.macTable = s.parser.macTable)
      (hdir : s'.dir = s.dir)
  | queued (x : DirData) (hsent : s'.sent = s.sent) (hne : s.dirInits ≠ [])
      (hd : s'.dirInits = s.dirInits) (hn : s'.netInits = s.netInits)
      (hp : s'.parser.macTable = s.parser.macTable) (hdir : s.dir.step (.init x) = some s'.dir)
  | filled (m : StructNetInitMsg) (hsent : s'.sent = s.sent) (hd : s'.dirInits = s.dirInits)
      (hn : s.netInits = m :: s'.netInits)
      (hp : ∀ h : m.nodeId.toNat < 8, s'.parser.macTable =
        Function.update s.parser.macTable ⟨m.nodeId.toNat, h⟩ m.nodeMac)
      (hdir : s'.dir = s.dir)
  | served (act : DirPipeline.Action) (ha : a = .dir act) (hact : ∀ x, act ≠ .init x)
      (hsent : s'.sent = s.sent) (hdeliver : s'.deliver = s.deliver) (hp : s'.parser = s.parser)
      (hdir : s.dir.step act = some s'.dir)

/-- A step of the directory; its entries come over the stream. -/
theorem step_dir {act : DirPipeline.Action} (hs : (startup c).step (.dir act) s = some s') :
    (∀ x, act ≠ .init x) ∧ ∃ p, s.dir.step act = some p ∧ s' = { s with dir := p } := by
  have hmap : (s.dir.step act).map (fun p => { s with dir := p }) = some s' := by
    cases act with
    | init x => cases hs
    | _ => exact hs
  refine ⟨?_, ?_⟩
  · rintro x rfl
    cases hs
  · obtain ⟨p, hp, rfl⟩ := Option.map_eq_some_iff.mp hmap
    exact ⟨p, hp, rfl⟩

/-- An entry goes over to the directory. -/
theorem step_initDir {x : DirData} (hs : (startup c).step (.initDir x) s = some s') :
    ∃ es p, s.deliver.dirDataInit = x.toStruct :: es ∧ s.dir.step (.init x) = some p ∧
      s' = { s with deliver := { s.deliver with dirDataInit := es }, dir := p } := by
  replace hs : Startup.step c (.initDir x) s = some s' := hs
  unfold step at hs
  dsimp only at hs
  split at hs
  next e es he =>
    obtain ⟨rfl, hnext⟩ := Option.ite_none_right_eq_some.mp hs
    obtain ⟨p, hp, rfl⟩ := Option.map_eq_some_iff.mp hnext
    exact ⟨es, p, he, hp, rfl⟩
  next => cases hs

/-- An address goes over to `parser`. -/
theorem step_initNet (hs : (startup c).step .initNet s = some s') :
    ∃ m ms, s.deliver.netInitMsg = m :: ms ∧
      s' = { s with
        deliver := { s.deliver with netInitMsg := ms }
        parser := { s.parser with netInitMsg := s.parser.netInitMsg ++ [m] } } := by
  replace hs : Startup.step c .initNet s = some s' := hs
  unfold step at hs
  dsimp only at hs
  split at hs
  next m ms hm =>
    cases hs
    exact ⟨m, ms, hm, rfl⟩
  next => cases hs

theorem Effect.of_step {a : StartupAction} (hs : (startup c).step a s = some s') :
    Effect c s s' a := by
  cases a with
  | send junk wlast wstrb =>
      obtain ⟨m, hm, rfl⟩ := Option.map_eq_some_iff.mp hs
      rcases send_inits hm wlast wstrb with ⟨hlt, hd, hn⟩ | ⟨hle, hlt, hd, hn⟩
      · exact .entry hlt rfl hd hn rfl rfl
      · exact .address hle hlt rfl hd hn rfl rfl
  | request m wlast wstrb =>
      obtain ⟨⟨-, hdir, hnet⟩, hs⟩ := Option.ite_none_right_eq_some.mp hs
      cases hs
      obtain ⟨hd, hn⟩ := s.write_inits m wlast wstrb
      rw [if_neg hdir, List.append_nil] at hd
      rw [if_neg hnet, List.append_nil] at hn
      exact .moved rfl hd hn rfl rfl
  | deliver m =>
      cases hs
      obtain ⟨hd, hn, -⟩ := H2cDeliver.tick_cases m s.deliver
      exact .moved rfl (congrArg (s.dir.stage.dirDataInit.map DirData.toStruct ++ ·) hd)
        (congrArg (s.parser.netInitMsg ++ ·) hn) rfl rfl
  | initDir x =>
      obtain ⟨es, p, he, hp, rfl⟩ := step_initDir hs
      cases hp
      have hd : s.dirInits = s.dir.stage.dirDataInit.map DirData.toStruct ++ (x.toStruct ::
          (es ++ (s.deliver.h2cW.filter StructH2cW.isInitDir).map h2cWToDirData)) := by
        rw [dirInits, H2cDeliver.dirInits, he]
        rfl
      refine .queued x rfl ?_ (Eq.trans ?_ hd.symm) rfl rfl rfl
      · rw [hd]
        exact List.append_ne_nil_of_right_ne_nil _ (List.cons_ne_nil _ _)
      · show (s.dir.stage.dirDataInit ++ [x]).map DirData.toStruct ++ _ = _
        rw [List.map_append, List.append_assoc]
        rfl
  | initNet =>
      obtain ⟨m, ms, hm, rfl⟩ := step_initNet hs
      refine .moved rfl rfl ?_ rfl rfl
      show (s.parser.netInitMsg ++ [m]) ++ (ms ++ _) = s.parser.netInitMsg ++ (s.deliver.netInitMsg ++ _)
      rw [hm, List.append_assoc]
      rfl
  | parser u =>
      cases hs
      rcases parser_tick s.parser u with ⟨hm, hm', htable⟩ | ⟨m, hm, htable⟩
      · refine .moved rfl rfl ?_ htable rfl
        show (s.parser.tick u).netInitMsg ++ _ = s.parser.netInitMsg ++ _
        rw [hm, hm']
      · refine .filled m rfl rfl ?_ htable rfl
        show s.parser.netInitMsg ++ _ = m :: ((s.parser.tick u).netInitMsg ++ _)
        rw [hm]
        rfl
  | dir act =>
      obtain ⟨hact, p, hp, rfl⟩ := step_dir hs
      exact .served act rfl hact rfl rfl rfl hp

/-! ## The table -/

/-- The first `j` addresses are in the table, the others that have been sent are under way. -/
structure Filled (c : DsmInit) (s : Startup) (j : ℕ) : Prop where
  sent : s.sent ≤ c.gblockNumPerNode + 8
  le : j ≤ s.sent - c.gblockNumPerNode
  nets : s.netInits = (List.range' j (s.sent - c.gblockNumPerNode - j)).map c.netInit
  macs : ∀ n : NodeId, n < j → s.parser.macTable n = c.mac n

theorem Filled.of_init (hi : s.Init) : s.Filled c 0 := by
  refine ⟨?_, Nat.zero_le _, ?_, fun n hn => (Nat.not_lt_zero _ hn).elim⟩
  · rw [hi.sent]
    exact Nat.zero_le _
  · rw [hi.sent, netInits, H2cDeliver.netInits, hi.parser, hi.netInitMsg, hi.h2cW, Nat.zero_sub]
    rfl

/-- The next address goes into the table. -/
theorem Filled.fill {j : ℕ} {m : StructNetInitMsg} (h : s.Filled c j) (hsent : s'.sent = s.sent)
    (hn : s.netInits = m :: s'.netInits)
    (hp : ∀ h : m.nodeId.toNat < 8, s'.parser.macTable =
      Function.update s.parser.macTable ⟨m.nodeId.toNat, h⟩ m.nodeMac) : s'.Filled c (j + 1) := by
  have hj := h.le
  have hsent' := h.sent
  have hnets := hn.symm.trans h.nets
  cases hlen : s.sent - c.gblockNumPerNode - j with
  | zero =>
      rw [hlen] at hnets
      cases hnets
  | succ l =>
      rw [hlen, List.range'_succ, List.map_cons] at hnets
      obtain ⟨rfl, hrest⟩ := List.cons.inj hnets
      have hnode : (c.netInit j).nodeId.toNat = j := by
        show (BitVec.ofNat 8 j).toNat = j
        rw [BitVec.toNat_ofNat]
        omega
      refine ⟨by omega, by omega, ?_, fun n hlt => ?_⟩
      · rw [hrest, hsent, show s.sent - c.gblockNumPerNode - (j + 1) = l by omega]
      · rw [hp (by omega), Function.update_apply]
        split
        next heq =>
          have hnj : (n : ℕ) = j := by rw [heq]; exact hnode
          show c.mac (Fin.ofNat 8 j) = _
          congr 1
          exact Fin.ext (by rw [← hnj]; exact Nat.mod_eq_of_lt n.isLt)
        next hne =>
          refine h.macs n ?_
          have hnj : (n : ℕ) ≠ j := fun heq => hne (Fin.ext (heq.trans hnode.symm))
          omega

theorem Filled.step {a : StartupAction} {j : ℕ} (h : s.Filled c j)
    (hs : (startup c).step a s = some s') : ∃ j, s'.Filled c j := by
  have hle := h.le
  cases Effect.of_step hs with
  | entry hlt hsent hd hn hp hdir =>
      refine ⟨j, by omega, by omega, ?_, hp ▸ h.macs⟩
      rw [hn, h.nets, hsent]
      congr 2
      omega
  | address hle' hlt hsent hd hn hp hdir =>
      refine ⟨j, by omega, by omega, ?_, hp ▸ h.macs⟩
      have hlen : s.sent + 1 - c.gblockNumPerNode - j = s.sent - c.gblockNumPerNode - j + 1 := by
        omega
      rw [hn, h.nets, hsent, hlen, List.range'_concat, List.map_append, List.map_singleton]
      congr 3
      omega
  | moved hsent hd hn hp hdir =>
      exact ⟨j, hsent ▸ h.sent, hsent ▸ h.le, by rw [hn, hsent, h.nets], hp ▸ h.macs⟩
  | queued x hsent hne hd hn hp hdir =>
      exact ⟨j, hsent ▸ h.sent, hsent ▸ h.le, by rw [hn, hsent, h.nets], hp ▸ h.macs⟩
  | served act ha hact hsent hdeliver hp hdir =>
      refine ⟨j, hsent ▸ h.sent, hsent ▸ h.le, ?_, hp ▸ h.macs⟩
      rw [netInits, hp, hdeliver, hsent]
      exact h.nets
  | filled m hsent hd hn hp hdir => exact ⟨j + 1, h.fill hsent hn hp⟩

theorem filled (h : (startup c).Reachable s) : ∃ j, s.Filled c j := by
  refine h.invariant (P := fun s => ∃ j, Filled c s j) (fun s hi => ⟨0, .of_init hi⟩) ?_
  rintro s a s' - ⟨j, h⟩ hs
  exact h.step hs

/-! ## Requests -/

/-- The requests that have gone out, and those that are still words. -/
structure Asked (s : Startup) (out rest : List RawMessage) : Prop where
  requested : s.requested = out ++ rest
  ctrlMsgOut : List.Forall₂ RawMessage.Carries out s.deliver.ctrlMsgOut
  words : List.Forall₂ (fun (m : RawMessage) w => ∃ wlast wstrb, w = m.toH2cW wlast wstrb)
    rest s.deliver.requests
  regCount : s.deliver.regCount = BitVec.ofNat 32 out.length

theorem Asked.of_init (hi : s.Init) : s.Asked [] [] := by
  refine ⟨hi.requested, ?_, ?_, hi.regCount⟩
  · rw [hi.ctrlMsgOut]
    exact .nil
  · rw [H2cDeliver.requests, hi.h2cW]
    exact .nil

/-- A tick of `h2cCtrlMsgDeliverHLS` lets at most the first of the waiting requests out. -/
theorem Asked.deliver {out rest : List RawMessage} (h : s.Asked out rest) (junk : StructCtrlMsg) :
    ∃ out rest, Asked { s with deliver := s.deliver.tick junk } out rest := by
  obtain ⟨-, -, ⟨hreq, hout, hcount⟩ | ⟨w, hreq, hout, hcount⟩⟩ :=
    H2cDeliver.tick_cases junk s.deliver
  · exact ⟨out, rest, h.requested, hout ▸ h.ctrlMsgOut, hreq ▸ h.words, hcount ▸ h.regCount⟩
  · have hwords := h.words
    rw [hreq] at hwords
    obtain ⟨m, rest', ⟨wlast, wstrb, rfl⟩, hrest, rfl⟩ := List.forall₂_cons_right_iff.mp hwords
    refine ⟨out ++ [m], rest', ?_, ?_, hrest, ?_⟩
    · show s.requested = _
      rw [h.requested, List.append_assoc]
      rfl
    · rw [hout]
      exact List.rel_append h.ctrlMsgOut (.cons (m.carries_toH2cW wlast wstrb junk) .nil)
    · rw [hcount, h.regCount, List.length_append]
      exact (BitVec.ofNat_add ..).symm

theorem Asked.step {a : StartupAction} {out rest : List RawMessage} (h : s.Asked out rest)
    (hs : (startup c).step a s = some s') : ∃ out rest, s'.Asked out rest := by
  cases a with
  | send junk wlast wstrb =>
      obtain ⟨m, hm, rfl⟩ := Option.map_eq_some_iff.mp hs
      refine ⟨out, rest, h.requested, h.ctrlMsgOut, ?_, h.regCount⟩
      show List.Forall₂ _ rest (s.write m wlast wstrb).deliver.requests
      rw [s.write_requests, if_pos (DsmInit.next_mtype hm), List.append_nil]
      exact h.words
  | request m wlast wstrb =>
      obtain ⟨⟨-, hdir, hnet⟩, hs⟩ := Option.ite_none_right_eq_some.mp hs
      cases hs
      refine ⟨out, rest ++ [m], ?_, h.ctrlMsgOut, ?_, h.regCount⟩
      · show s.requested ++ [m] = _
        rw [h.requested, List.append_assoc]
      · show List.Forall₂ _ _ (s.write m wlast wstrb).deliver.requests
        rw [s.write_requests, if_neg (not_or.mpr ⟨hdir, hnet⟩)]
        exact List.rel_append h.words (.cons ⟨wlast, wstrb, rfl⟩ .nil)
  | deliver junk =>
      cases hs
      exact h.deliver junk
  | initDir x =>
      obtain ⟨es, p, -, -, rfl⟩ := step_initDir hs
      exact ⟨out, rest, h.requested, h.ctrlMsgOut, h.words, h.regCount⟩
  | initNet =>
      obtain ⟨m, ms, -, rfl⟩ := step_initNet hs
      exact ⟨out, rest, h.requested, h.ctrlMsgOut, h.words, h.regCount⟩
  | parser u =>
      cases hs
      exact ⟨out, rest, h.requested, h.ctrlMsgOut, h.words, h.regCount⟩
  | dir act =>
      obtain ⟨-, p, -, rfl⟩ := step_dir hs
      exact ⟨out, rest, h.requested, h.ctrlMsgOut, h.words, h.regCount⟩

theorem asked (h : (startup c).Reachable s) : ∃ out rest, s.Asked out rest := by
  refine h.invariant (P := fun s => ∃ out rest, Asked s out rest)
    (fun s hi => ⟨[], [], .of_init hi⟩) ?_
  rintro s a s' - ⟨out, rest, h⟩ hs
  exact h.step hs

/-! ## The directory -/

/-- The first `k` entries are with the directory, the others that have been sent are under way.
The directory has begun with `d₀` and has got to `d`; before the first message the two are the
same. -/
structure Loading (c : DsmInit) (s : Startup) (k : ℕ) (d₀ d : Directory) : Prop where
  le : k ≤ s.sent ∧ k ≤ c.gblockNumPerNode
  inits : s.dirInits = (List.range' k (min s.sent c.gblockNumPerNode - k)).map c.dirData
  reached : dirPipeline.ReachableWhen DirPipeline.InitFirst s.dir
  clear : s.dir.Clear
  made : s.dir.Made d
  loads : c.Loads k d₀
  path : ReflTransGen (directory.StepWhen fun _ b => Directory.serves b) d₀ d
  idle : ¬ s.dir.Begun → d = d₀
  begun : s.dir.Begun → c.gblockNumPerNode + 8 ≤ s.sent ∧ s.dirInits = []

namespace Loading

variable {k : ℕ} {d₀ d : Directory} {act : DirPipeline.Action}

theorem locks (h : s.Loading c k d₀ d) : DirPipeline.Locks s.dir :=
  .of_reachableWhen (h.reached.mono fun _ _ => DirPipeline.InitFirst.harmless)

/-- Once every entry has arrived, all of them are loaded. -/
theorem loaded (h : s.Loading c k d₀ d) (hsent : c.gblockNumPerNode ≤ s.sent)
    (hnil : s.dirInits = []) : k = c.gblockNumPerNode := by
  have hlen := congrArg List.length (h.inits.symm.trans hnil)
  rw [List.length_map, List.length_range', List.length_nil] at hlen
  have := h.le.2
  omega

/-- What reaches the directory is what it can serve. -/
theorem initFirst (h : s.Loading c k d₀ d) (hact : ∀ x, act ≠ .init x)
    (hok : s.Orderly c (.dir act)) : s.dir.InitFirst act := by
  cases act with
  | init x => exact (hact x rfl).elim
  | arrive m =>
      obtain ⟨hstart, hlt⟩ := hok
      refine ⟨hstart.settled, ?_⟩
      have hsent := hstart.sent
      have hk := h.loaded (by omega) hstart.dirInits
      have hentry := (h.loads.loaded _ (hk ▸ hlt)).index
      rw [BitVec.ofNat_toNat, BitVec.setWidth_eq] at hentry
      rw [← h.made.index hstart.settled, Directory.index_run h.path]
      exact hentry
  | _ => exact h.clear.harmless h.made.settled

/-- A step that leaves the directory alone. -/
theorem apart (h : s.Loading c k d₀ d) (hle : k ≤ s'.sent)
    (hinits : s'.dirInits = (List.range' k (min s'.sent c.gblockNumPerNode - k)).map c.dirData)
    (hdir : s'.dir = s.dir)
    (hbegun : s.dir.Begun → c.gblockNumPerNode + 8 ≤ s'.sent ∧ s'.dirInits = []) :
    s'.Loading c k d₀ d where
  le := ⟨hle, h.le.2⟩
  inits := hinits
  reached := hdir ▸ h.reached
  clear := hdir ▸ h.clear
  made := hdir ▸ h.made
  loads := h.loads
  path := h.path
  idle := hdir ▸ h.idle
  begun := hdir ▸ hbegun

/-- A step of the directory that takes up no entry. -/
theorem works (h : s.Loading c k d₀ d) (hok : s.dir.InitFirst act)
    (hu : ∀ u, act = .toNet u → u.ctrlMsg.lockPosition.toNat < lockBktSize)
    (hs : s.dir.step act = some s'.dir) (hsent : s'.sent = s.sent)
    (hinits : s'.dirInits = s.dirInits) (hne : ∀ m, act ≠ .arrive m)
    (hcommit : ∀ b, s.dir.commits act = some b → b = .serve ∨ b = .copy) :
    ∃ d', s'.Loading c k d₀ d' := by
  obtain ⟨d', hd, hmade⟩ := h.made.step h.locks hok hs
  have hb : s'.dir.Begun ↔ s.dir.Begun := by
    refine (DirPipeline.begun_step hs).trans (or_iff_left ?_)
    rintro ⟨m, hm⟩
    exact hne m hm
  have hpath : ReflTransGen (directory.StepWhen fun _ b => Directory.serves b) d d' ∧
      (d.Init → d' = d) := by
    cases hc : s.dir.commits act with
    | none =>
        rw [hc] at hd
        rw [show d' = d from hd]
        exact ⟨.refl, fun _ => rfl⟩
    | some b =>
        rw [hc] at hd
        have hwork := hcommit b hc
        refine ⟨.single ⟨b, ?_, hd⟩, fun hi => ?_⟩
        · rintro e rfl
          rcases hwork with hw | hw <;> cases hw
        · have hnone := hi.idle hwork
          cases hnone.symm.trans hd
  refine ⟨d', hsent ▸ h.le, ?_, h.reached.step hok hs, h.clear.step h.locks hu hs, hmade, h.loads,
    h.path.trans hpath.1, fun hnot => ?_, fun hbeg => ?_⟩
  · rw [hinits, hsent]
    exact h.inits
  · have hd₀ := h.idle fun hbeg => hnot (hb.mpr hbeg)
    exact (hpath.2 (hd₀ ▸ h.loads.init)).trans hd₀
  · rw [hsent, hinits]
    exact h.begun (hb.mp hbeg)

/-- The next entry is taken up, so no message has arrived. -/
theorem take {x : DirData} (h : s.Loading c k d₀ d) (hok : s.dir.InitFirst act)
    (hu : ∀ u, act = .toNet u → u.ctrlMsg.lockPosition.toNat < lockBktSize)
    (hs : s.dir.step act = some s'.dir) (hsent : s'.sent = s.sent)
    (hinits : s.dirInits = x.toStruct :: s'.dirInits) (hne : ∀ m, act ≠ .arrive m)
    {addr : NodeId → Addr} (hcommit : s.dir.commits act = some (.init (dirDataToDirDataE x addr))) :
    ∃ d', s'.Loading c (k + 1) d' d' := by
  have hnot : ¬ s.dir.Begun := by
    intro hbeg
    cases hinits.symm.trans (h.begun hbeg).2
  have hlist := hinits.symm.trans h.inits
  cases hlen : min s.sent c.gblockNumPerNode - k with
  | zero =>
      rw [hlen] at hlist
      cases hlist
  | succ l =>
      rw [hlen, List.range'_succ, List.map_cons] at hlist
      obtain ⟨hk, hrest⟩ := List.cons.inj hlist
      obtain ⟨d', hd, hmade⟩ := h.made.step h.locks hok hs
      rw [hcommit] at hd
      have hloads := h.loads.step (by omega) hk (h.idle hnot ▸ hd)
      refine ⟨d', ?_, ?_, h.reached.step hok hs, h.clear.step h.locks hu hs, hmade,
        hloads, .refl, fun _ => rfl, fun hbeg => ?_⟩
      · rw [hsent]
        omega
      · rw [hrest, hsent, show min s.sent c.gblockNumPerNode - (k + 1) = l by omega]
      · rcases (DirPipeline.begun_step hs).mp hbeg with hbeg | ⟨m, hm⟩
        · exact (hnot hbeg).elim
        · exact (hne m hm).elim

/-- A message arrives at a node that has started. -/
theorem arrive {m : CtrlMsg} (h : s.Loading c k d₀ d) (hstart : s.Started c)
    (hok : s.dir.InitFirst (.arrive m)) (hs : s.dir.step (.arrive m) = some s'.dir)
    (hsent : s'.sent = s.sent) (hinits : s'.dirInits = s.dirInits) :
    ∃ d', s'.Loading c k d₀ d' := by
  obtain ⟨d', hd, hmade⟩ := h.made.step h.locks hok hs
  refine ⟨d', hsent ▸ h.le, ?_, h.reached.step hok hs, h.clear.step h.locks (by rintro u ⟨⟩) hs, hmade,
    h.loads, h.path.tail ⟨.arrive m, by rintro e ⟨⟩, hd⟩, fun hnot => ?_, fun _ => ?_⟩
  · rw [hinits, hsent]
    exact h.inits
  · exact (hnot ((DirPipeline.begun_step hs).mpr (.inr ⟨m, rfl⟩))).elim
  · rw [hsent, hinits]
    exact ⟨hstart.sent, hstart.dirInits⟩

/-- An entry gets to the directory. -/
theorem queue {x : DirData} (h : s.Loading c k d₀ d) (hne : s.dirInits ≠ [])
    (hs : s.dir.step (.init x) = some s'.dir) (hsent : s'.sent = s.sent)
    (hinits : s'.dirInits = s.dirInits) : s'.Loading c k d₀ d := by
  have hok : s.dir.InitFirst (.init x) := fun hbeg => hne (h.begun hbeg).2
  have hb := (DirPipeline.begun_step hs).trans (or_iff_left (by rintro ⟨m, ⟨⟩⟩))
  obtain ⟨d', hd, hmade⟩ := h.made.step h.locks hok hs
  rw [show d' = d from hd] at hmade
  refine ⟨hsent ▸ h.le, ?_, h.reached.step hok hs, h.clear.step h.locks (by rintro u ⟨⟩) hs, hmade,
    h.loads, h.path, fun _ => h.idle hok, fun hbeg => (hok (hb.mp hbeg)).elim⟩
  rw [hinits, hsent, h.inits]

/-- A step of the directory. -/
theorem served (h : s.Loading c k d₀ d) (hok : s.Orderly c (.dir act)) (hact : ∀ x, act ≠ .init x)
    (hsent : s'.sent = s.sent) (hdeliver : s'.deliver = s.deliver)
    (hs : s.dir.step act = some s'.dir) : ∃ k' d₀' d', s'.Loading c k' d₀' d' := by
  have hfirst := h.initFirst hact hok
  have hu : ∀ u, act = .toNet u → u.ctrlMsg.lockPosition.toNat < lockBktSize := by
    rintro u rfl
    exact hok
  have hsame : s'.dir.stage.dirDataInit = s.dir.stage.dirDataInit → s'.dirInits = s.dirInits := by
    intro hd
    rw [dirInits, dirInits, hd, hdeliver]
  have hnone : s.dir.commits act = none → ∀ b, s.dir.commits act = some b → b = .serve ∨ b = .copy := by
    intro hc b hb
    cases hc.symm.trans hb
  rcases DirPipeline.step_cases hs with
    ⟨m, rfl, -, hdir⟩ | ⟨x, rfl, -⟩ | ⟨rfl, hdir⟩ | ⟨u, rfl, hdir⟩ | ⟨hc, ha⟩
  · exact ⟨k, d₀, h.arrive hok.1 hfirst hs hsent (hsame (by rw [hdir]))⟩
  · exact (hact x rfl).elim
  · have hinits := hsame (by rw [hdir, s.dir.dirCtrlFromNet_aside.2.1])
    exact ⟨k, d₀, h.works hfirst hu hs hsent hinits (by rintro m ⟨⟩) (hnone rfl)⟩
  · rcases DirPipeline.tick_inits h.locks u with ⟨x, xs, hx, hxs, hc, -⟩ | ⟨hx, hxs, hc, -⟩
    · have hinits : s.dirInits = x.toStruct :: s'.dirInits := by
        have hx' : s'.dir.stage.dirDataInit = xs := by rw [hdir, ← hxs]
        rw [dirInits, dirInits, hx, hx', hdeliver]
        rfl
      obtain ⟨d', h'⟩ := h.take hfirst hu hs hsent hinits (by rintro m ⟨⟩) hc
      exact ⟨k + 1, d', d', h'⟩
    · have hinits := hsame (by rw [hdir, hx]; exact hxs)
      exact ⟨k, d₀, h.works hfirst hu hs hsent hinits (by rintro m ⟨⟩) hc⟩
  · have hne : ∀ m, act ≠ .arrive m := by
      rintro m rfl
      cases hc
    exact ⟨k, d₀, h.works hfirst hu hs hsent (hsame ha.dirDataInit) hne (hnone hc)⟩

theorem of_init (hi : s.Init) : ∃ d, s.Loading c 0 d d := by
  obtain ⟨d, hd, hmade⟩ := DirPipeline.made_init hi.dir
  refine ⟨d, ⟨Nat.zero_le _, Nat.zero_le _⟩, ?_, .init hi.dir, .of_init hi.dir, hmade,
    ⟨hd, fun i hi' => (Nat.not_lt_zero i hi').elim⟩, .refl, fun _ => rfl,
    fun hb => (hi.dir.not_begun hb).elim⟩
  rw [hi.sent, Nat.zero_min, dirInits, H2cDeliver.dirInits, hi.dir.dirDataInit, hi.dirDataInit,
    hi.h2cW]
  rfl

theorem step {a : StartupAction} (h : s.Loading c k d₀ d) (hok : s.Orderly c a)
    (hs : (startup c).step a s = some s') : ∃ k d₀ d, s'.Loading c k d₀ d := by
  have hle := h.le
  cases Effect.of_step hs with
  | entry hlt hsent hd hn hp hdir =>
      refine ⟨k, d₀, d, h.apart (by omega) ?_ hdir fun hbeg => ?_⟩
      · have hlen : min (s.sent + 1) c.gblockNumPerNode - k
            = min s.sent c.gblockNumPerNode - k + 1 := by omega
        rw [hd, h.inits, hsent, hlen, List.range'_concat, List.map_append, List.map_singleton]
        congr 3
        omega
      · have := (h.begun hbeg).1
        omega
  | address hle' hlt hsent hd hn hp hdir =>
      refine ⟨k, d₀, d, h.apart (by omega) ?_ hdir fun hbeg => ?_⟩
      · rw [hd, h.inits, hsent]
        congr 2
        omega
      · have := (h.begun hbeg).1
        omega
  | moved hsent hd hn hp hdir =>
      refine ⟨k, d₀, d, h.apart (by omega) ?_ hdir fun hbeg => ?_⟩
      · rw [hd, hsent, h.inits]
      · rw [hd, hsent]
        exact h.begun hbeg
  | filled m hsent hd hn hp hdir =>
      refine ⟨k, d₀, d, h.apart (by omega) ?_ hdir fun hbeg => ?_⟩
      · rw [hd, hsent, h.inits]
      · rw [hd, hsent]
        exact h.begun hbeg
  | queued x hsent hne hd hn hp hdir => exact ⟨k, d₀, d, h.queue hne hdir hsent hd⟩
  | served act ha hact hsent hdeliver hp hdir =>
      subst ha
      exact h.served hok hact hsent hdeliver hdir

end Loading

/-- Before its constructor runs. -/
def off : Startup where
  sent := 0
  requested := []
  deliver := ⟨[], [], [], [], 0, .blank⟩
  parser := ⟨[], [], [], [], 0, fun _ => 0, .blank, .mac⟩
  dir := .reset

end Startup

end Ting
