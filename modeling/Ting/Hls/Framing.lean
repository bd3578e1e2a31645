/-
# `Ting.Hls.Framing` — what `deparser` makes of what `parser` sends

Neither end tells the other where a frame begins.  `deparser` knows it because it counts: a header,
a message, and the payload if the length that has come with the message is not zero, up to the
beat with the mark.  This module shows that it never loses count, whatever the pace of the streams:
the control messages come out in order, each on the port for its type, and the payload of a
message, which goes to the host, comes after the command that says where to.

A beat is read as an `Item`, so that what is on the wire and what `parser` has still to send are
two parts of one list, which both machines follow.
-/
import Ting.Hls.NetLink
import Ting.Lib.Rounds

namespace Ting

open RawMessageType

/-! ## Frames -/

/-- A payload: the last beat and only the last beat has the mark. -/
def Burst (beats : List StructDataMsg) : Prop :=
  ∃ ds d, beats = ds ++ [d] ∧ (∀ d' ∈ ds, d'.last = 0) ∧ d.last = 1

/-- The mark tells whether there is more to come. -/
theorem burst_cons {d : StructDataMsg} {ds : List StructDataMsg} :
    Burst (d :: ds) ↔ d.last = 1 ∧ ds = [] ∨ d.last = 0 ∧ Burst ds := by
  constructor
  · rintro ⟨ds', d', heq, hds, hd⟩
    cases ds' with
    | nil =>
      cases heq
      exact .inl ⟨hd, rfl⟩
    | cons e ds' =>
      obtain ⟨rfl, rfl⟩ := List.cons.inj heq
      obtain ⟨hfirst, hds⟩ := List.forall_mem_cons.mp hds
      exact .inr ⟨hfirst, ds', d', rfl, hds, hd⟩
  · rintro (⟨hd, rfl⟩ | ⟨hd, ds', d', rfl, hds, hd'⟩)
    · exact ⟨[], d, rfl, fun _ h => absurd h List.not_mem_nil, hd⟩
    · exact ⟨d :: ds', d', rfl, List.forall_mem_cons.mpr ⟨hd, hds⟩, hd'⟩

theorem Burst.ne_nil {beats : List StructDataMsg} (h : Burst beats) : beats ≠ [] := by
  obtain ⟨ds, d, rfl, -, -⟩ := h
  exact List.append_ne_nil_of_right_ne_nil _ (List.cons_ne_nil _ _)

/-- A message with its payload. -/
structure Frame where
  msg : StructCtrlMsg
  beats : List StructDataMsg
  none : msg.dataMsgLength = 0 → beats = []
  burst : msg.dataMsgLength ≠ 0 → Burst beats

/-- The directory gets what is sent to a directory, the cache controller everything else. -/
def portOf (mtype : BitVec 8) : StructCtrlMsg.Port :=
  if ∃ t : RawMessageType, t.code = mtype ∧ t.toDir then .dc else .cc

namespace StructCtrlMsg

/-- All fields are zero. -/
def blank : StructCtrlMsg where
  mtype := 0
  reqClineNodeID := 0
  reqClineAppThreadID := 0
  reqClineAddr := 0
  reqClineIndex := 0
  clineTag := 0
  agentClineNodeID := 0
  agentClineAddr := 0
  dirGblockAddr := 0
  dirGblockIndex := 0
  dirGblockBitmap _ := 0
  dirGblockNodeID := 0
  generalC2hOwner := 0
  initState := 0
  initMac := 0
  dataMsgLength := 0
  dstThreadType := 0
  dstNodeId := 0
  lockPosition := 0

/-- The fields of a message that the network carries; the others are blank. -/
def carried (m : StructCtrlMsg) : StructCtrlMsg :=
  { m.copyFields blank with dataMsgLength := m.dataMsgLength }

/-- Where the host puts the payload. -/
def writeAddr (m : StructCtrlMsg) : Addr :=
  if m.mtype = agent2DirReadMissDirtyAckdata.code ∨ m.mtype = rEvictDirty.code then
    m.dirGblockAddr
  else m.reqClineAddr

/-- The command for the payload, if there is one. -/
def writeCmd (m : StructCtrlMsg) : List Written :=
  if m.dataMsgLength = 0 then [] else [.c2hCmd ⟨m.writeAddr, 4096, pseudoQidD⟩]

/-- No number outside of the enumeration lies between those that `deparser` compares with. -/
theorem portOf_eq (c : BitVec 8) :
    (if rReadMiss.code ≤ c ∧ c ≤ rEvictDirty.code then Port.dc
      else if agent2DirReadMissDirtyAckdata.code ≤ c ∧ c ≤ agent2DirMCheckFail.code then Port.dc
      else Port.cc) = portOf c := by
  revert c
  decide +kernel

theorem deparser_portOf (m : StructCtrlMsg) : m.deparser.1 = portOf m.mtype :=
  portOf_eq m.mtype

theorem deparser_writeAddr (m : StructCtrlMsg) :
    m.deparser.2 = if m.dataMsgLength = 0 then none else some m.writeAddr := by
  simp only [deparser, writeAddr, apply_ite some]

theorem deparser_writeCmd (m : StructCtrlMsg) :
    (m.deparser.2.map fun a =>
      Written.c2hCmd ⟨a, dsmCacheLineSize.setWidth 32, pseudoQidD⟩).toList = m.writeCmd := by
  rw [deparser_writeAddr, writeCmd]
  split
  next => rfl
  next => rfl

end StructCtrlMsg

/-- What is written, but for the fields that the network does not carry. -/
def Written.carried : Written → Written
  | ctrlMsg p m => .ctrlMsg p m.carried
  | c2hCmd c => .c2hCmd c
  | c2hData d => .c2hData d

theorem Written.map_writeCmd (m : StructCtrlMsg) : m.writeCmd.map carried = m.writeCmd := by
  unfold StructCtrlMsg.writeCmd
  split
  next => rfl
  next => rfl

/-- What is to come out of a frame. -/
def Frame.written (f : Frame) : List Written :=
  .ctrlMsg (portOf f.msg.mtype) f.msg.carried ::
    (f.msg.writeCmd ++ f.beats.map fun d => .c2hData ⟨d.data, pseudoQidD, d.last⟩)

/-! ## Items -/

/-- What a beat carries. -/
inductive Item
  | mac
  | ctrl (m : StructCtrlMsg)
  | data (d : StructDataMsg)

namespace Item

/-- The stage in which it is sent and received. -/
def stage : Item → NetStage
  | mac => .mac
  | ctrl _ => .ctrl
  | data _ => .data

/-- The stage that comes after. -/
def after : Item → NetStage
  | mac => .ctrl
  | ctrl m => if m.dataMsgLength = 0 then .mac else .data
  | data d => if d.last = 1 then .mac else .data

/-- What comes out of it. -/
def written : Item → List Written
  | mac => []
  | ctrl m => .ctrlMsg (portOf m.mtype) m.carried :: m.writeCmd
  | data d => [.c2hData ⟨d.data, pseudoQidD, d.last⟩]

/-- The message, if it is one. -/
def ctrl? : Item → Option StructCtrlMsg
  | ctrl m => some m
  | _ => none

/-- The beat of a payload, if it is one. -/
def data? : Item → Option StructDataMsg
  | data d => some d
  | _ => none

end Item

theorem Item.of_stage_mac {i : Item} (h : i.stage = .mac) : i = .mac := by
  cases i with
  | mac => rfl
  | ctrl m => cases h
  | data d => cases h

theorem Item.of_stage_ctrl {i : Item} (h : i.stage = .ctrl) : ∃ m, i = .ctrl m := by
  cases i with
  | mac => cases h
  | ctrl m => exact ⟨m, rfl⟩
  | data d => cases h

theorem Item.of_stage_data {i : Item} (h : i.stage = .data) : ∃ d, i = .data d := by
  cases i with
  | mac => cases h
  | ctrl m => cases h
  | data d => exact ⟨d, rfl⟩

/-- A beat as `parser` makes it. -/
inductive SentAs : StructNetRxtx → Item → Prop
  | mac (x : StructNetRxtx) : SentAs x .mac
  | ctrl (m : StructCtrlMsg) (payload : BitVec 512) (tx : StructNetRxtx) :
      SentAs (ctrlMsgToNetTx m payload tx) (.ctrl m)
  | data (d : StructDataMsg) (tx : StructNetRxtx) : SentAs (dataMsgToNetTx d tx) (.data d)

/-- A machine in the given stage can go through the items one by one, and ends between frames. -/
def Follows : NetStage → List Item → Prop
  | st, [] => st = .mac
  | st, i :: is => i.stage = st ∧ Follows i.after is

theorem Follows.cons_mac {is : List Item} (h : Follows .mac is) :
    is = [] ∨ ∃ is', is = .mac :: is' ∧ Follows .ctrl is' := by
  cases is with
  | nil => exact .inl rfl
  | cons i is =>
    obtain ⟨hi, his⟩ := h
    cases Item.of_stage_mac hi
    exact .inr ⟨is, rfl, his⟩

theorem Follows.cons_ctrl {is : List Item} (h : Follows .ctrl is) :
    ∃ m is', is = .ctrl m :: is' ∧ Follows (Item.ctrl m).after is' := by
  cases is with
  | nil => cases h
  | cons i is =>
    obtain ⟨hi, his⟩ := h
    obtain ⟨m, rfl⟩ := Item.of_stage_ctrl hi
    exact ⟨m, is, rfl, his⟩

theorem Follows.cons_data {is : List Item} (h : Follows .data is) :
    ∃ d is', is = .data d :: is' ∧ Follows (Item.data d).after is' := by
  cases is with
  | nil => cases h
  | cons i is =>
    obtain ⟨hi, his⟩ := h
    obtain ⟨d, rfl⟩ := Item.of_stage_data hi
    exact ⟨d, is, rfl, his⟩

/-- A machine that has written everything is between frames. -/
theorem Follows.eq_nil {st : NetStage} {is : List Item} (h : Follows st is)
    (hw : is.flatMap Item.written = []) : is = [] ∧ st = .mac := by
  cases st with
  | mac =>
    rcases h.cons_mac with rfl | ⟨is', rfl, his⟩
    · exact ⟨rfl, rfl⟩
    · obtain ⟨m, is'', rfl, -⟩ := his.cons_ctrl
      cases hw
  | ctrl =>
    obtain ⟨m, is', rfl, -⟩ := h.cons_ctrl
    cases hw
  | data =>
    obtain ⟨d, is', rfl, -⟩ := h.cons_data
    cases hw

/-- The items of a frame. -/
def Frame.items (f : Frame) : List Item :=
  .mac :: .ctrl f.msg :: f.beats.map .data

theorem Burst.follows {beats : List StructDataMsg} (h : Burst beats) {is : List Item}
    (his : Follows .mac is) : Follows .data (beats.map .data ++ is) := by
  induction beats with
  | nil => exact absurd rfl h.ne_nil
  | cons d ds ih =>
    refine ⟨rfl, ?_⟩
    rcases burst_cons.mp h with ⟨hd, rfl⟩ | ⟨hd, hds⟩
    · rw [Item.after, if_pos hd]
      exact his
    · rw [Item.after, if_neg (by rw [hd]; decide)]
      exact ih hds

namespace Frame

theorem follows (f : Frame) {is : List Item} (his : Follows .mac is) :
    Follows .mac (f.items ++ is) := by
  refine ⟨rfl, rfl, ?_⟩
  by_cases hlen : f.msg.dataMsgLength = 0
  · rw [Item.after, if_pos hlen, f.none hlen]
    exact his
  · rw [Item.after, if_neg hlen]
    exact (f.burst hlen).follows his

theorem follows_flatMap (fs : List Frame) : Follows .mac (fs.flatMap items) := by
  induction fs with
  | nil => rfl
  | cons f fs ih => exact f.follows ih

theorem written_items (f : Frame) : f.items.flatMap Item.written = f.written := by
  have hbeats : ∀ ds : List StructDataMsg, (ds.map Item.data).flatMap Item.written
      = ds.map fun d => .c2hData ⟨d.data, pseudoQidD, d.last⟩ := by
    intro ds
    induction ds with
    | nil => rfl
    | cons d ds ih =>
      rw [List.map_cons, List.flatMap_cons, ih]
      rfl
  rw [items, List.flatMap_cons, List.flatMap_cons, hbeats]
  rfl

theorem ctrl?_items (f : Frame) : f.items.filterMap Item.ctrl? = [f.msg] := by
  have hbeats : ∀ ds : List StructDataMsg, (ds.map Item.data).filterMap Item.ctrl? = [] := by
    intro ds
    rw [List.filterMap_map]
    exact List.filterMap_eq_nil_iff.mpr fun _ _ => rfl
  show f.msg :: _ = _
  rw [hbeats]

theorem data?_items (f : Frame) : f.items.filterMap Item.data? = f.beats := by
  show (f.beats.map Item.data).filterMap Item.data? = _
  rw [List.filterMap_map]
  exact List.filterMap_some

end Frame

/-! ## What is on the wire and what is still to be sent -/

/-- The message whose header has been sent, but which has not. -/
def Parser.pending (s : Parser) : List StructCtrlMsg :=
  match s.regSendStage with
  | .ctrl => [s.regSendCtrlMsg]
  | _ => []

theorem NetStage.ite_ne_ctrl (c : Prop) [Decidable c] : (if c then NetStage.mac else .data) ≠ .ctrl := by
  split
  next => nofun
  next => nofun

/-- Only in the stage of the message is one pending. -/
theorem Parser.pending_eq_nil {p : Parser} (h : p.regSendStage ≠ .ctrl) : p.pending = [] := by
  unfold Parser.pending
  split
  next hst => exact absurd hst h
  next => rfl

namespace NetLink

/-- What has come out of the link, but for what the network does not carry. -/
def delivered (s : NetLink) : List Written :=
  s.deparser.written.map Written.carried

/-- The items on the wire are `wire` and those that `parser` has not yet sent are `todo`. -/
structure Linked (fs : List Frame) (s : NetLink) (wire todo : List Item) : Prop where
  written : s.delivered ++ (wire ++ todo).flatMap Item.written = fs.flatMap Frame.written
  carries : List.Forall₂ SentAs (s.deparser.netRx ++ s.parser.netTx) wire
  receives : Follows s.deparser.regRecvStage (wire ++ todo)
  sends : Follows s.parser.regSendStage todo
  ctrls : todo.filterMap Item.ctrl? = s.parser.pending ++ (s.parser.ctrlMsgIn ++ s.ctrlTodo)
  datas : todo.filterMap Item.data? = s.parser.dataMsgIn ++ s.dataTodo

variable {fs : List Frame} {s : NetLink} {wire todo : List Item}

/-- `parser` sends an item. -/
theorem Linked.sent {i : Item} {is : List Item} (h : Linked fs s wire (i :: is)) {p : Parser}
    {x : StructNetRxtx} (hx : SentAs x i) (htx : p.netTx = s.parser.netTx ++ [x])
    (hstage : p.regSendStage = i.after)
    (hctrl : is.filterMap Item.ctrl? = p.pending ++ (p.ctrlMsgIn ++ s.ctrlTodo))
    (hdata : is.filterMap Item.data? = p.dataMsgIn ++ s.dataTodo) :
    Linked fs { s with parser := p } (wire ++ [i]) is where
  written := by
    rw [List.append_assoc]
    exact h.written
  carries := by
    show List.Forall₂ _ (s.deparser.netRx ++ p.netTx) _
    rw [htx, ← List.append_assoc]
    exact List.rel_append h.carries (.cons hx .nil)
  receives := by
    rw [List.append_assoc]
    exact h.receives
  sends := hstage ▸ h.sends.2
  ctrls := hctrl
  datas := hdata

/-- What `parser` reads of the addresses changes nothing else. -/
theorem Linked.readInit (h : Linked fs s wire todo) :
    Linked fs { s with parser := s.parser.readInit } wire todo := by
  unfold Parser.readInit
  split
  next m ms hm =>
    split
    next => exact ⟨h.written, h.carries, h.receives, h.sends, h.ctrls, h.datas⟩
    next => exact ⟨h.written, h.carries, h.receives, h.sends, h.ctrls, h.datas⟩
  next => exact h

/-- `parser` sends the next item, if it has what it takes. -/
theorem Linked.send (h : Linked fs s wire todo) (u : ParserUninit) :
    ∃ wire' todo', Linked fs { s with parser := s.parser.send u } wire' todo' := by
  have hs := h.sends
  have hctrl := h.ctrls
  have hdata := h.datas
  cases hst : s.parser.regSendStage with
  | mac =>
    rw [hst] at hs
    rw [Parser.pending_eq_nil (hst ▸ nofun)] at hctrl
    cases hin : s.parser.ctrlMsgIn with
    | nil =>
      refine ⟨wire, todo, ?_⟩
      simp only [Parser.send, hst, hin]
      exact h
    | cons m ms =>
      simp only [Parser.send, hst, hin]
      rw [hin] at hctrl
      rcases hs.cons_mac with rfl | ⟨is, rfl, his⟩
      · cases hctrl
      · refine ⟨wire ++ [.mac], is, ?_⟩
        apply h.sent (.mac _)
        · rfl
        · rfl
        · exact hctrl
        · exact hdata
  | ctrl =>
    rw [hst] at hs
    obtain ⟨m, is, rfl, his⟩ := hs.cons_ctrl
    simp only [Parser.send, hst]
    simp only [Parser.pending, hst] at hctrl
    obtain ⟨rfl, hrest⟩ := List.cons.inj hctrl
    refine ⟨wire ++ [.ctrl s.parser.regSendCtrlMsg], is, ?_⟩
    apply h.sent (.ctrl ..)
    · rfl
    · rfl
    · rw [Parser.pending_eq_nil (NetStage.ite_ne_ctrl _)]
      exact hrest
    · exact hdata
  | data =>
    rw [hst] at hs
    rw [Parser.pending_eq_nil (hst ▸ nofun)] at hctrl
    obtain ⟨d, is, rfl, his⟩ := hs.cons_data
    cases hin : s.parser.dataMsgIn with
    | nil =>
      refine ⟨wire, .data d :: is, ?_⟩
      simp only [Parser.send, hst, hin]
      exact h
    | cons d' ds =>
      simp only [Parser.send, hst, hin]
      rw [hin] at hdata
      obtain ⟨rfl, hrest⟩ := List.cons.inj hdata
      refine ⟨wire ++ [.data d], is, ?_⟩
      apply h.sent (.data ..)
      · rfl
      · rfl
      · rw [Parser.pending_eq_nil (NetStage.ite_ne_ctrl _)]
        exact hctrl
      · exact hrest

/-- `deparser` takes the next item off the wire. -/
theorem Linked.received {i : Item} (h : Linked fs s (i :: wire) todo) {p : Deparser}
    {x : StructNetRxtx} {xs : List StructNetRxtx} (hx : s.deparser.netRx = x :: xs)
    (hrx : p.netRx = xs) (hstage : p.regRecvStage = i.after)
    (hwritten : p.written.map Written.carried =
      s.deparser.written.map Written.carried ++ i.written) :
    Linked fs { s with deparser := p } wire todo where
  written := by
    rw [delivered, hwritten, List.append_assoc]
    exact h.written
  carries := by
    have hc := h.carries
    rw [hx] at hc
    show List.Forall₂ _ (p.netRx ++ _) _
    rw [hrx]
    exact (List.forall₂_cons.mp hc).2
  receives := hstage ▸ h.receives.2
  sends := h.sends
  ctrls := h.ctrls
  datas := h.datas

/-- A control message comes out as it went in. -/
theorem announce_carried (m : StructCtrlMsg) (payload payload' : BitVec 512) (tx : StructNetRxtx)
    (c : StructCtrlMsg) :
    (Deparser.announce (netRxToCtrlMsg (ctrlMsgToNetTx m payload tx) payload' c)).map
        Written.carried = (Item.ctrl m).written := by
  rw [netRxToCtrlMsg_ctrlMsgToNetTx, Deparser.announce, StructCtrlMsg.deparser_portOf,
    StructCtrlMsg.deparser_writeCmd, List.map_cons, Written.map_writeCmd]
  rfl

/-- `deparser` takes what comes next. -/
theorem Linked.tick (h : Linked fs s wire todo) (u : DeparserUninit) :
    ∃ wire', Linked fs { s with deparser := s.deparser.tick u } wire' todo := by
  cases hrx : s.deparser.netRx with
  | nil =>
    refine ⟨wire, ?_⟩
    simp only [Deparser.tick, hrx]
    exact h
  | cons x xs =>
    have hc := h.carries
    rw [hrx, List.cons_append] at hc
    obtain ⟨i, wire', hx, -, rfl⟩ := List.forall₂_cons_left_iff.mp hc
    have hst := h.receives.1
    refine ⟨wire', ?_⟩
    cases hx with
    | mac x =>
      simp only [Deparser.tick, hrx, ← hst, Item.stage]
      apply h.received hrx
      · rfl
      · rfl
      · exact (List.append_nil _).symm
    | ctrl m payload tx =>
      simp only [Deparser.tick, hrx, ← hst, Item.stage]
      apply h.received hrx
      · rfl
      · simp only [netRxToCtrlMsg_ctrlMsgToNetTx]
        rfl
      · rw [List.map_append, announce_carried]
    | data d tx =>
      simp only [Deparser.tick, hrx, ← hst, Item.stage]
      apply h.received hrx
      · rfl
      · rfl
      · rw [List.map_append, netRxToC2hData, dataMsgToNetTx, ofNet_toNet]
        rfl

/-- An action moves what is to come out of the link, but neither adds to it nor takes from it. -/
theorem Linked.step (h : Linked fs s wire todo) (a : Action) :
    ∃ wire' todo', Linked fs (s.step a) wire' todo' := by
  cases a with
  | ctrlArrives =>
    refine ⟨wire, todo, ?_⟩
    cases hm : s.ctrlTodo with
    | nil =>
      simp only [NetLink.step, hm]
      exact h
    | cons m ms =>
      simp only [NetLink.step, hm]
      refine ⟨h.written, h.carries, h.receives, h.sends, ?_, h.datas⟩
      rw [h.ctrls, hm]
      show _ = s.parser.pending ++ (s.parser.ctrlMsgIn ++ [m] ++ ms)
      rw [List.append_assoc, List.singleton_append]
  | dataArrives =>
    refine ⟨wire, todo, ?_⟩
    cases hd : s.dataTodo with
    | nil =>
      simp only [NetLink.step, hd]
      exact h
    | cons d ds =>
      simp only [NetLink.step, hd]
      refine ⟨h.written, h.carries, h.receives, h.sends, h.ctrls, ?_⟩
      rw [h.datas, hd, List.append_assoc, List.singleton_append]
  | initArrives =>
    refine ⟨wire, todo, ?_⟩
    cases hm : s.initTodo with
    | nil =>
      simp only [NetLink.step, hm]
      exact h
    | cons m ms =>
      simp only [NetLink.step, hm]
      exact ⟨h.written, h.carries, h.receives, h.sends, h.ctrls, h.datas⟩
  | parser u => exact h.readInit.send u
  | carry =>
    refine ⟨wire, todo, ?_⟩
    cases hx : s.parser.netTx with
    | nil =>
      simp only [NetLink.step, hx]
      exact h
    | cons x xs =>
      simp only [NetLink.step, hx]
      refine ⟨h.written, ?_, h.receives, h.sends, h.ctrls, h.datas⟩
      have hc := h.carries
      rw [hx] at hc
      rw [List.append_assoc, List.singleton_append]
      exact hc
  | deparser u =>
    obtain ⟨wire', h'⟩ := h.tick u
    exact ⟨wire', todo, h'⟩

theorem Linked.run (h : Linked fs s wire todo) (acts : List Action) :
    ∃ wire' todo', Linked fs (s.run acts) wire' todo' := by
  induction acts generalizing s wire todo with
  | nil => exact ⟨wire, todo, h⟩
  | cons a acts ih =>
    obtain ⟨wire', todo', h'⟩ := h.step a
    exact ih h'

end NetLink

/-! ## Rest -/

namespace Parser

/-- What the stage waits for is not there. -/
def Waiting (p : Parser) : Prop :=
  match p.regSendStage with
  | .mac => p.ctrlMsgIn = []
  | .ctrl => False
  | .data => p.dataMsgIn = []

/-- The actions that what `parser` has will take: a beat that it sends has still to be carried and
to be received. -/
def work (p : Parser) : ℕ :=
  p.netInitMsg.length + 6 * p.ctrlMsgIn.length + 3 * p.dataMsgIn.length + 3 * p.pending.length +
    2 * p.netTx.length

theorem readInit_cases (p : Parser) :
    (p.netInitMsg = [] ∧ p.readInit = p) ∨ p.readInit.work < p.work := by
  unfold readInit
  split
  next m ms hm =>
    refine .inr ?_
    split
    next => simp only [work, pending, hm, List.length_cons]; omega
    next => simp only [work, pending, hm, List.length_cons]; omega
  next hm => exact .inl ⟨hm, rfl⟩

theorem send_cases (p : Parser) :
    (p.Waiting ∧ ∀ u, p.send u = p) ∨ ∀ u, (p.send u).work < p.work := by
  cases hst : p.regSendStage with
  | mac =>
    cases hin : p.ctrlMsgIn with
    | nil => exact .inl ⟨by rw [Waiting, hst]; exact hin, fun u => by simp only [send, hst, hin]⟩
    | cons m ms =>
      refine .inr fun u => ?_
      simp only [send, hst, hin, work, pending, List.length_cons, List.length_append,
        List.length_nil]
      omega
  | ctrl =>
    refine .inr fun u => ?_
    have hpend : (p.send u).pending = [] := by
      simp only [send, hst]
      exact pending_eq_nil (NetStage.ite_ne_ctrl _)
    rw [work, hpend]
    simp only [send, hst, work, pending, List.length_append, List.length_singleton,
      List.length_nil]
    omega
  | data =>
    cases hin : p.dataMsgIn with
    | nil => exact .inl ⟨by rw [Waiting, hst]; exact hin, fun u => by simp only [send, hst, hin]⟩
    | cons d ds =>
      refine .inr fun u => ?_
      have hpend : (p.send u).pending = [] := by
        simp only [send, hst, hin]
        exact pending_eq_nil (NetStage.ite_ne_ctrl _)
      rw [work, hpend]
      simp only [send, hst, hin, work, List.length_append, List.length_cons, List.length_nil]
      omega

theorem tick_cases (p : Parser) :
    (p.netInitMsg = [] ∧ p.Waiting ∧ ∀ u, p.tick u = p) ∨ ∀ u, (p.tick u).work < p.work := by
  rcases p.readInit_cases with ⟨hm, hsame⟩ | hlt
  · rcases p.send_cases with ⟨hwait, hsend⟩ | hsend
    · refine .inl ⟨hm, hwait, fun u => ?_⟩
      rw [tick, hsame, hsend u]
    · refine .inr fun u => ?_
      rw [tick, hsame]
      exact hsend u
  · refine .inr fun u => ?_
    rcases p.readInit.send_cases with ⟨-, hsend⟩ | hsend
    · rw [tick, hsend u]
      exact hlt
    · exact (hsend u).trans hlt

end Parser

/-- `deparser` takes a beat, if there is one. -/
theorem Deparser.tick_cases (p : Deparser) :
    (p.netRx = [] ∧ ∀ u, p.tick u = p) ∨ ∀ u, (p.tick u).netRx.length < p.netRx.length := by
  cases hrx : p.netRx with
  | nil => exact .inl ⟨rfl, fun u => by simp only [tick, hrx]⟩
  | cons x xs =>
    refine .inr fun u => ?_
    cases hst : p.regRecvStage with
    | mac => simp only [tick, hrx, hst, List.length_cons]; exact Nat.lt_succ_self _
    | ctrl => simp only [tick, hrx, hst, List.length_cons]; exact Nat.lt_succ_self _
    | data => simp only [tick, hrx, hst, List.length_cons]; exact Nat.lt_succ_self _

namespace NetLink

/-- What an action of the given kind waits for is not there. -/
def Idle (s : NetLink) : Kind → Prop
  | .ctrlArrives => s.ctrlTodo = []
  | .dataArrives => s.dataTodo = []
  | .initArrives => s.initTodo = []
  | .parser => s.parser.Waiting
  | .carry => s.parser.netTx = []
  | .deparser => s.deparser.netRx = []

/-- The actions that it takes until everything has gone through. -/
def work (s : NetLink) : ℕ :=
  7 * s.ctrlTodo.length + 4 * s.dataTodo.length + 2 * s.initTodo.length + s.parser.work +
    s.deparser.netRx.length

/-- An action whose input is not there does nothing, any other one does some of the work. -/
theorem step_cases (s : NetLink) (k : Kind) :
    (s.Idle k ∧ ∀ a : Action, a.kind = k → s.step a = s) ∨
      ∀ a : Action, a.kind = k → (s.step a).work < s.work := by
  cases k with
  | ctrlArrives =>
    cases hm : s.ctrlTodo with
    | nil =>
      refine .inl ⟨hm, fun a ha => ?_⟩
      cases a with
      | ctrlArrives => simp only [step, hm]
      | dataArrives | initArrives | parser | carry | deparser => cases ha
    | cons m ms =>
      refine .inr fun a ha => ?_
      cases a with
      | ctrlArrives =>
        simp only [step, hm, work, Parser.work, Parser.pending, List.length_append,
          List.length_cons, List.length_nil]
        omega
      | dataArrives | initArrives | parser | carry | deparser => cases ha
  | dataArrives =>
    cases hd : s.dataTodo with
    | nil =>
      refine .inl ⟨hd, fun a ha => ?_⟩
      cases a with
      | dataArrives => simp only [step, hd]
      | ctrlArrives | initArrives | parser | carry | deparser => cases ha
    | cons d ds =>
      refine .inr fun a ha => ?_
      cases a with
      | dataArrives =>
        simp only [step, hd, work, Parser.work, Parser.pending, List.length_append,
          List.length_cons, List.length_nil]
        omega
      | ctrlArrives | initArrives | parser | carry | deparser => cases ha
  | initArrives =>
    cases hm : s.initTodo with
    | nil =>
      refine .inl ⟨hm, fun a ha => ?_⟩
      cases a with
      | initArrives => simp only [step, hm]
      | ctrlArrives | dataArrives | parser | carry | deparser => cases ha
    | cons m ms =>
      refine .inr fun a ha => ?_
      cases a with
      | initArrives =>
        simp only [step, hm, work, Parser.work, Parser.pending, List.length_append,
          List.length_cons, List.length_nil]
        omega
      | ctrlArrives | dataArrives | parser | carry | deparser => cases ha
  | parser =>
    rcases s.parser.tick_cases with ⟨-, hwait, hsame⟩ | hlt
    · refine .inl ⟨hwait, fun a ha => ?_⟩
      cases a with
      | parser u => rw [step, hsame]
      | ctrlArrives | dataArrives | initArrives | carry | deparser => cases ha
    · refine .inr fun a ha => ?_
      cases a with
      | parser u =>
        have := hlt u
        simp only [step, work]
        omega
      | ctrlArrives | dataArrives | initArrives | carry | deparser => cases ha
  | carry =>
    cases hx : s.parser.netTx with
    | nil =>
      refine .inl ⟨hx, fun a ha => ?_⟩
      cases a with
      | carry => simp only [step, hx]
      | ctrlArrives | dataArrives | initArrives | parser | deparser => cases ha
    | cons x xs =>
      refine .inr fun a ha => ?_
      cases a with
      | carry =>
        simp only [step, hx, work, Parser.work, Parser.pending, List.length_append,
          List.length_cons, List.length_nil]
        omega
      | ctrlArrives | dataArrives | initArrives | parser | deparser => cases ha
  | deparser =>
    rcases s.deparser.tick_cases with ⟨hrx, hsame⟩ | hlt
    · refine .inl ⟨hrx, fun a ha => ?_⟩
      cases a with
      | deparser u => rw [step, hsame]
      | ctrlArrives | dataArrives | initArrives | parser | carry => cases ha
    · refine .inr fun a ha => ?_
      cases a with
      | deparser u =>
        have := hlt u
        simp only [step, work]
        omega
      | ctrlArrives | dataArrives | initArrives | parser | carry => cases ha

theorem step_eq_or_lt (s : NetLink) (k : Kind) :
    (∀ a : Action, a.kind = k → s.step a = s) ∨
      ∀ a : Action, a.kind = k → (s.step a).work < s.work :=
  (s.step_cases k).imp_left And.right

/-- An action of each kind. -/
def Kind.someAction : Kind → Action
  | ctrlArrives => .ctrlArrives
  | dataArrives => .dataArrives
  | initArrives => .initArrives
  | parser => .parser ⟨⟨0, 0, 0⟩, 0, 0⟩
  | carry => .carry
  | deparser => .deparser ⟨StructCtrlMsg.blank, 0⟩

theorem Kind.kind_someAction (k : Kind) : k.someAction.kind = k := by
  cases k <;> rfl

variable {s : NetLink}

theorem idle_of_atRest (h : Rounds.AtRest step s) (k : Kind) : s.Idle k := by
  rcases s.step_cases k with ⟨hidle, -⟩ | hlt
  · exact hidle
  · have hlt := hlt k.someAction k.kind_someAction
    rw [h k.someAction] at hlt
    exact absurd hlt (Nat.lt_irrefl _)

/-- At rest, nothing is left to be sent or received. -/
theorem Linked.nil_of_atRest {fs : List Frame} {wire todo : List Item} (h : Linked fs s wire todo)
    (hrest : Rounds.AtRest NetLink.step s) : wire = [] ∧ todo = [] := by
  have htx : s.parser.netTx = [] := idle_of_atRest hrest .carry
  have hrx : s.deparser.netRx = [] := idle_of_atRest hrest .deparser
  have hctrl : s.ctrlTodo = [] := idle_of_atRest hrest .ctrlArrives
  have hdata : s.dataTodo = [] := idle_of_atRest hrest .dataArrives
  have hwait : s.parser.Waiting := idle_of_atRest hrest .parser
  have hsends := h.sends
  refine ⟨?_, ?_⟩
  · have hc := h.carries
    rw [htx, hrx] at hc
    cases hc
    rfl
  · unfold Parser.Waiting at hwait
    cases hst : s.parser.regSendStage with
    | mac =>
      simp only [hst] at hwait hsends
      have hctrls := h.ctrls
      rw [Parser.pending_eq_nil (hst ▸ nofun), hwait, hctrl] at hctrls
      rcases hsends.cons_mac with rfl | ⟨is, rfl, his⟩
      · rfl
      · obtain ⟨m, is', rfl, -⟩ := his.cons_ctrl
        cases hctrls
    | ctrl => simp only [hst] at hwait
    | data =>
      simp only [hst] at hwait hsends
      have hdatas := h.datas
      rw [hwait, hdata] at hdatas
      obtain ⟨d, is, rfl, -⟩ := hsends.cons_data
      cases hdatas

/-! ## Round trip -/

/-- After a reset, with all the frames still to come. -/
def start (fs : List Frame) (inits : List StructNetInitMsg) (localMac : BitVec 48)
    (macTable : NodeId → BitVec 48) (regSend regRecv : StructCtrlMsg) : NetLink where
  ctrlTodo := fs.map Frame.msg
  dataTodo := fs.flatMap Frame.beats
  initTodo := inits
  parser :=
    { netTx := []
      netInitMsg := []
      ctrlMsgIn := []
      dataMsgIn := []
      localMac := localMac
      macTable := macTable
      regSendCtrlMsg := regSend
      regSendStage := .mac }
  deparser :=
    { netRx := []
      regRecvCtrlMsg := regRecv
      regRecvStage := .mac
      written := [] }

theorem Linked.start (fs : List Frame) (inits : List StructNetInitMsg) (localMac : BitVec 48)
    (macTable : NodeId → BitVec 48) (regSend regRecv : StructCtrlMsg) :
    Linked fs (start fs inits localMac macTable regSend regRecv) [] (fs.flatMap Frame.items) where
  written := by
    rw [List.nil_append, List.flatMap_assoc]
    exact List.flatMap_congr fun f _ => f.written_items
  carries := .nil
  receives := Frame.follows_flatMap fs
  sends := Frame.follows_flatMap fs
  ctrls := by
    show _ = fs.map Frame.msg
    rw [List.filterMap_flatMap, List.map_eq_flatMap]
    exact List.flatMap_congr fun f _ => f.ctrl?_items
  datas := by
    rw [List.filterMap_flatMap]
    exact List.flatMap_congr fun f _ => f.data?_items

/-- Whatever the order in which things arrive and the machines tick: what comes out is what the
frames ask for, in order and never more; when all of it has come out, both machines are between
frames; and all of it comes out, once each kind of action has had its turn often enough. -/
theorem framing_round_trip (fs : List Frame) (inits : List StructNetInitMsg)
    (localMac : BitVec 48) (macTable : NodeId → BitVec 48) (regSend regRecv : StructCtrlMsg) :
    let s := start fs inits localMac macTable regSend regRecv
    (∀ acts, (s.run acts).delivered <+: fs.flatMap Frame.written) ∧
    (∀ acts, (s.run acts).delivered = fs.flatMap Frame.written →
      (s.run acts).parser.regSendStage = .mac ∧ (s.run acts).deparser.regRecvStage = .mac) ∧
    ∃ n, ∀ rounds : List (List Action), n ≤ rounds.length →
      (∀ r ∈ rounds, Rounds.IsRound Action.kind r) →
        (s.run rounds.flatten).delivered = fs.flatMap Frame.written := by
  intro s
  have hstart := Linked.start fs inits localMac macTable regSend regRecv
  refine ⟨fun acts => ?_, fun acts hall => ?_, s.work, fun rounds hlen hrounds => ?_⟩
  · obtain ⟨wire, todo, h⟩ := hstart.run acts
    exact ⟨_, h.written⟩
  · obtain ⟨wire, todo, h⟩ := hstart.run acts
    have hw := h.written
    rw [hall] at hw
    obtain ⟨hnil, hrecv⟩ := h.receives.eq_nil (List.append_right_eq_self.mp hw)
    have hsend := h.sends
    rw [(List.append_eq_nil_iff.mp hnil).2] at hsend
    exact ⟨hsend, hrecv⟩
  · obtain ⟨wire, todo, h⟩ := hstart.run rounds.flatten
    have hrest : Rounds.AtRest NetLink.step (s.run rounds.flatten) :=
      Rounds.atRest_of_rounds step_eq_or_lt rounds hrounds s hlen
    obtain ⟨rfl, rfl⟩ := h.nil_of_atRest hrest
    have hw := h.written
    rw [List.append_nil, List.flatMap_nil, List.append_nil] at hw
    exact hw

/-- Each kind of action once. -/
def oneRound : List Action :=
  [Kind.ctrlArrives, .dataArrives, .initArrives, .parser, .carry, .deparser].map Kind.someAction

theorem isRound_oneRound : Rounds.IsRound Action.kind oneRound := by
  intro k
  refine ⟨k.someAction, List.mem_map_of_mem ?_, k.kind_someAction⟩
  cases k <;> decide

/-- A read miss, which has no payload, and an answer to one, with a payload of two beats. -/
def requestAndAnswer : List Frame :=
  [{ msg := { StructCtrlMsg.blank with mtype := rReadMiss.code }
     beats := []
     none := fun _ => rfl
     burst := fun h => absurd rfl h },
   { msg := { StructCtrlMsg.blank with mtype := dir2AppReadMissAckdata.code, dataMsgLength := 4096 }
     beats := [⟨1, 0, 0⟩, ⟨2, 0, 1⟩]
     none := fun h => absurd h (by decide)
     burst := fun _ => ⟨[⟨1, 0, 0⟩], ⟨2, 0, 1⟩, rfl, by simp, rfl⟩ }]

/-- Two messages, a command and two beats come out. -/
theorem framing_round_trip_answer :
    ∃ acts, ((start requestAndAnswer [] 0 (fun _ => 0) .blank .blank).run acts).delivered.length =
      5 := by
  obtain ⟨-, -, n, hn⟩ := framing_round_trip requestAndAnswer [] 0 (fun _ => 0) .blank .blank
  have hall := hn (List.replicate n oneRound) (Nat.le_of_eq List.length_replicate.symm)
    fun r hr => List.eq_of_mem_replicate hr ▸ isRound_oneRound
  exact ⟨_, congrArg List.length hall⟩

end NetLink

end Ting
