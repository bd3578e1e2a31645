/-
# `Ting.Hls.DataFetch` — payloads stay with their messages

`dataMsgFetch` sends a message without a payload on at once.  For any other one it orders the
payload from the host and puts the message into a queue that leads back to itself; when a beat has
come from the host and a message out of the queue, the two belong together, and the stage passes
both on and then nothing but beats, until the last of them.

The host answers the commands in order, each with beats of which the last has the mark.  The
streams are queues, and what has been written to one may take any time until it can be read.
-/
import Ting.Hls.Framing

namespace Ting

open RawMessageType

/-- `struct_h2c_cmd`. -/
structure StructH2cCmd where
  addr : Addr
  len : BitVec 32
  qid : BitVec 11

/-- `struct_h2c_data`. -/
structure StructH2cData where
  data : BitVec 512
  tuserQid : BitVec 11
  last : BitVec 1

/-- `PSEUDO_QID_DMF`. -/
def pseudoQidDMF : BitVec 11 := 2

/-- `h2c_data_to_data_msg`. -/
def h2cDataToDataMsg (d : StructH2cData) : StructDataMsg where
  data := d.data
  keep := 0xffffffffffffffff
  last := d.last

/-- `dataMsgFetch` with its streams.  What `parser` reads is kept whole; `entered`, `fetched` and
`replies` are histories of the messages that have arrived, of the commands and of the answers. -/
structure DataFetch where
  /-- `ctrl_msg_f_CMC_t_DMF_in`. -/
  ctrlMsgIn : List StructCtrlMsg
  /-- The commands that the host has not answered. -/
  h2cCmd : List StructH2cCmd
  /-- The beats that are not there yet. -/
  h2cData : List StructH2cData
  h2cDataIn : List StructH2cData
  /-- `ctrl_msg_f_DMF_t_DMF_out`, as far as it cannot be read yet. -/
  loopOut : List StructCtrlMsg
  loopIn : List StructCtrlMsg
  regEndFlag : Bool
  ctrlMsgOut : List StructCtrlMsg
  dataMsgOut : List StructDataMsg
  entered : List StructCtrlMsg
  fetched : List StructH2cCmd
  replies : List (List StructH2cData)

namespace DataFetch

/-- A message is taken from the input. -/
def take (s : DataFetch) (m : StructCtrlMsg) (ms : List StructCtrlMsg) : DataFetch :=
  match m.dataMsgFetch with
  | (some a, m') =>
      let cmd : StructH2cCmd := ⟨a, dsmCacheLineSize.setWidth 32, pseudoQidDMF⟩
      { s with
        ctrlMsgIn := ms
        h2cCmd := s.h2cCmd ++ [cmd]
        fetched := s.fetched ++ [cmd]
        loopOut := s.loopOut ++ [m'] }
  | (none, m') => { s with ctrlMsgIn := ms, ctrlMsgOut := s.ctrlMsgOut ++ [m'] }

/-- One invocation of `dataMsgFetch`. -/
def tick (s : DataFetch) : DataFetch :=
  if s.regEndFlag = false then
    match s.h2cDataIn with
    | d :: ds => { s with
        h2cDataIn := ds
        dataMsgOut := s.dataMsgOut ++ [h2cDataToDataMsg d]
        regEndFlag := if d.last = 1 then true else false }
    | [] => s
  else
    match s.h2cDataIn, s.loopIn with
    | d :: ds, m :: ms => { s with
        loopIn := ms
        ctrlMsgOut := s.ctrlMsgOut ++ [m]
        h2cDataIn := ds
        dataMsgOut := s.dataMsgOut ++ [h2cDataToDataMsg d]
        regEndFlag := if d.last = 0 then false else true }
    | _, _ =>
        match s.ctrlMsgIn with
        | m :: ms => s.take m ms
        | [] => s

/-- The beats of an answer of the host. -/
structure Reply where
  beats : List StructH2cData
  burst : Burst (beats.map h2cDataToDataMsg)

/-- The host answers the oldest command. -/
def answer (s : DataFetch) (r : Reply) : DataFetch :=
  match s.h2cCmd with
  | _ :: cmds => { s with
      h2cCmd := cmds
      h2cData := s.h2cData ++ r.beats
      replies := s.replies ++ [r.beats] }
  | [] => s

/-- The next beat becomes readable. -/
def beat (s : DataFetch) : DataFetch :=
  match s.h2cData with
  | d :: ds => { s with h2cData := ds, h2cDataIn := s.h2cDataIn ++ [d] }
  | [] => s

/-- The next message of the queue becomes readable. -/
def loop (s : DataFetch) : DataFetch :=
  match s.loopOut with
  | m :: ms => { s with loopOut := ms, loopIn := s.loopIn ++ [m] }
  | [] => s

/-- What can happen next. -/
inductive Action
  | arrive (m : StructCtrlMsg)
  | answer (r : Reply)
  | beat
  | loop
  | tick

/-- One action. -/
def step (s : DataFetch) : Action → DataFetch
  | .arrive m => { s with ctrlMsgIn := s.ctrlMsgIn ++ [m], entered := s.entered ++ [m] }
  | .answer r => s.answer r
  | .beat => s.beat
  | .loop => s.loop
  | .tick => s.tick

/-- A sequence of actions. -/
def run (s : DataFetch) (acts : List Action) : DataFetch :=
  acts.foldl step s

/-- After a reset. -/
def start : DataFetch :=
  ⟨[], [], [], [], [], [], true, [], [], [], [], []⟩

end DataFetch

/-! ## Which messages have a payload -/

namespace StructCtrlMsg

/-- The type is one of those with a payload. -/
def bears (m : StructCtrlMsg) : Bool :=
  decide (∃ t : RawMessageType, t.code = m.mtype ∧ t.hasData)

/-- Where the payload comes from. -/
def fetchAddr (m : StructCtrlMsg) : Addr :=
  if ∃ t : RawMessageType, t.code = m.mtype ∧ t.fromCline then m.agentClineAddr
  else if ∃ t : RawMessageType, t.code = m.mtype ∧ t.fromGblock then m.dirGblockAddr
  else m.reqClineAddr

/-- The command for it. -/
def fetchCmd (m : StructCtrlMsg) : StructH2cCmd :=
  ⟨m.fetchAddr, 4096, pseudoQidDMF⟩

/-- The message with the length of its payload. -/
def sized (m : StructCtrlMsg) : StructCtrlMsg :=
  { m with dataMsgLength := if m.bears then dsmCacheLineSize else 0 }

@[simp] theorem bears_sized (m : StructCtrlMsg) : m.sized.bears = m.bears := rfl

@[simp] theorem fetchCmd_sized (m : StructCtrlMsg) : m.sized.fetchCmd = m.fetchCmd := rfl

theorem sized_dataMsgLength (m : StructCtrlMsg) :
    m.sized.dataMsgLength = if m.sized.bears then dsmCacheLineSize else 0 := rfl

theorem fromCline_iff (c : BitVec 8) :
    (c = agent2DirReadMissDirtyAckdata.code ∨ c = agent2AppReadMissDirtyAckdata.code ∨
      c = agent2AppWriteMissDirtyAckdata.code) ↔
      ∃ t : RawMessageType, t.code = c ∧ t.fromCline := by
  constructor
  · rintro (rfl | rfl | rfl) <;> exact ⟨_, rfl, rfl⟩
  · rintro ⟨t, rfl, ht⟩
    revert ht
    cases t <;> decide

theorem fromGblock_iff (c : BitVec 8) :
    (c = dir2AppReadMissAckdata.code ∨ c = dir2AppWriteMissAckdata.code ∨
      c = dir2AppWriteMissShareddata.code) ↔
      ∃ t : RawMessageType, t.code = c ∧ t.fromGblock := by
  constructor
  · rintro (rfl | rfl | rfl) <;> exact ⟨_, rfl, rfl⟩
  · rintro ⟨t, rfl, ht⟩
    revert ht
    cases t <;> decide

theorem hasData_iff (c : BitVec 8) :
    (∃ t : RawMessageType, t.code = c ∧ t.hasData) ↔
      (∃ t : RawMessageType, t.code = c ∧ t.fromCline) ∨
      (∃ t : RawMessageType, t.code = c ∧ t.fromGblock) ∨ c = rEvictDirty.code := by
  simp only [hasData, Bool.or_eq_true, beq_iff_eq, and_or_left, exists_or, or_assoc,
    exists_eq_right]
  rw [eq_comm (a := c)]

/-- `dataMsgFetch` compares a type with the seven that have a payload. -/
theorem dataMsgFetch_eq (m : StructCtrlMsg) :
    m.dataMsgFetch = (if m.bears then some m.fetchAddr else none, m.sized) := by
  unfold dataMsgFetch sized bears fetchAddr
  simp only [fromCline_iff, fromGblock_iff, hasData_iff, decide_eq_true_eq]
  split
  next hline => simp only [hline, true_or, if_true]
  next hline =>
    split
    next hblock => simp only [hline, hblock, true_or, or_true, if_true]
    next hblock =>
      split
      next hevict => simp only [hevict, or_true, if_true]
      next hevict => simp only [hline, hblock, hevict, or_self, if_false]

end StructCtrlMsg

namespace DataFetch

/-! ## The messages -/

theorem filter_concat_of_pos {α : Type} {p : α → Bool} (l : List α) {a : α} (h : p a = true) :
    (l ++ [a]).filter p = l.filter p ++ [a] := by
  rw [List.filter_append, List.filter_cons_of_pos h, List.filter_nil]

theorem filter_concat_of_neg {α : Type} {p : α → Bool} (l : List α) {a : α} (h : p a = false) :
    (l ++ [a]).filter p = l.filter p := by
  rw [List.filter_append, List.filter_cons_of_neg (ne_true_of_eq_false h), List.filter_nil,
    List.append_nil]

/-- The messages that wait for their payload, the oldest first. -/
def waiting (s : DataFetch) : List StructCtrlMsg :=
  s.loopIn ++ s.loopOut

/-- No message is lost, each is as long as its payload, and the commands are those for the messages
with a payload, in order. -/
structure Queued (s : DataFetch) : Prop where
  bearing : (s.entered.filter (·.bears)).map StructCtrlMsg.sized =
    s.ctrlMsgOut.filter (·.bears) ++
      (s.waiting ++ (s.ctrlMsgIn.filter (·.bears)).map StructCtrlMsg.sized)
  free : (s.entered.filter (!·.bears)).map StructCtrlMsg.sized =
    s.ctrlMsgOut.filter (!·.bears) ++ (s.ctrlMsgIn.filter (!·.bears)).map StructCtrlMsg.sized
  bears : ∀ m ∈ s.waiting, m.bears
  lengths : ∀ m ∈ s.ctrlMsgOut ++ s.waiting,
    m.dataMsgLength = if m.bears then dsmCacheLineSize else 0
  fetched : s.fetched =
    (s.ctrlMsgOut.filter (·.bears) ++ s.waiting).map StructCtrlMsg.fetchCmd

variable {s : DataFetch}

/-- A message with a payload is put into the queue, and its payload ordered. -/
theorem take_bears {m : StructCtrlMsg} (ms : List StructCtrlMsg) (hb : m.bears = true) :
    s.take m ms = { s with
      ctrlMsgIn := ms
      h2cCmd := s.h2cCmd ++ [m.fetchCmd]
      fetched := s.fetched ++ [m.fetchCmd]
      loopOut := s.loopOut ++ [m.sized] } := by
  rw [take, m.dataMsgFetch_eq, hb]
  rfl

/-- Any other one is passed on. -/
theorem take_free {m : StructCtrlMsg} (ms : List StructCtrlMsg) (hb : m.bears = false) :
    s.take m ms = { s with ctrlMsgIn := ms, ctrlMsgOut := s.ctrlMsgOut ++ [m.sized] } := by
  rw [take, m.dataMsgFetch_eq, hb]
  rfl

theorem Queued.take {m : StructCtrlMsg} {ms : List StructCtrlMsg} (h : Queued s)
    (hin : s.ctrlMsgIn = m :: ms) : Queued (s.take m ms) := by
  obtain ⟨hbearing, hfree, hbears, hlen, hfetched⟩ := h
  rw [hin] at hbearing hfree
  have hsized : m.sized.dataMsgLength = if m.sized.bears then dsmCacheLineSize else 0 := rfl
  cases hb : m.bears with
  | true =>
    have hwait : (s.take m ms).waiting = s.waiting ++ [m.sized] := by
      rw [take_bears ms hb, waiting, waiting, List.append_assoc]
    rw [List.filter_cons_of_pos hb, List.map_cons] at hbearing
    rw [List.filter_cons_of_neg (by rw [hb]; exact Bool.false_ne_true)] at hfree
    constructor
    · rw [hwait, take_bears ms hb, hbearing, List.append_assoc, List.singleton_append]
    · rw [take_bears ms hb]
      exact hfree
    · rw [hwait]
      exact List.forall_mem_append.mpr ⟨hbears, List.forall_mem_singleton.mpr hb⟩
    · rw [hwait, take_bears ms hb, ← List.append_assoc]
      exact List.forall_mem_append.mpr ⟨hlen, List.forall_mem_singleton.mpr hsized⟩
    · rw [hwait, take_bears ms hb, ← List.append_assoc, List.map_append, ← hfetched]
      rfl
  | false =>
    have hwait : (s.take m ms).waiting = s.waiting := by
      rw [take_free ms hb]
      rfl
    rw [List.filter_cons_of_neg (by rw [hb]; exact Bool.false_ne_true)] at hbearing
    rw [List.filter_cons_of_pos (by rw [hb]; rfl), List.map_cons] at hfree
    have hkeep : (s.ctrlMsgOut ++ [m.sized]).filter (·.bears) = s.ctrlMsgOut.filter (·.bears) :=
      filter_concat_of_neg _ hb
    constructor
    · rw [hwait, take_free ms hb, hkeep]
      exact hbearing
    · rw [take_free ms hb]
      show _ = (s.ctrlMsgOut ++ [m.sized]).filter _ ++ _
      rw [filter_concat_of_pos _ (by rw [StructCtrlMsg.bears_sized, hb]; rfl), List.append_assoc,
        hfree]
      rfl
    · rw [hwait]
      exact hbears
    · rw [hwait, take_free ms hb]
      obtain ⟨hout, hq⟩ := List.forall_mem_append.mp hlen
      exact List.forall_mem_append.mpr
        ⟨List.forall_mem_append.mpr ⟨hout, List.forall_mem_singleton.mpr hsized⟩, hq⟩
    · rw [hwait, take_free ms hb, hkeep]
      exact hfetched

/-- The message at the head of the queue is passed on. -/
theorem Queued.pass {s' : DataFetch} {m : StructCtrlMsg} {ms : List StructCtrlMsg} (h : Queued s)
    (hloop : s.loopIn = m :: ms) (hloop' : s'.loopIn = ms) (hrest : s'.loopOut = s.loopOut)
    (hout : s'.ctrlMsgOut = s.ctrlMsgOut ++ [m]) (hin : s'.ctrlMsgIn = s.ctrlMsgIn)
    (hent : s'.entered = s.entered) (hfet : s'.fetched = s.fetched) : Queued s' := by
  obtain ⟨hbearing, hfree, hbears, hlen, hfetched⟩ := h
  have hwait : s.waiting = m :: s'.waiting := by
    rw [waiting, waiting, hloop, hloop', hrest, List.cons_append]
  rw [hwait] at hbearing hbears hlen hfetched
  obtain ⟨hb, hbears⟩ := List.forall_mem_cons.mp hbears
  constructor
  · rw [hent, hbearing, hout, hin, filter_concat_of_pos _ hb, List.append_assoc]
    rfl
  · rw [hent, hfree, hout, hin, filter_concat_of_neg _ (by rw [hb]; rfl)]
  · exact hbears
  · rw [hout, List.append_assoc]
    exact hlen
  · rw [hfet, hfetched, hout, filter_concat_of_pos _ hb, List.append_assoc]
    rfl

theorem Queued.tick (h : Queued s) : Queued s.tick := by
  unfold DataFetch.tick
  split
  next =>
    split
    next => exact ⟨h.bearing, h.free, h.bears, h.lengths, h.fetched⟩
    next => exact h
  next =>
    split
    next d ds m ms hd hm => exact h.pass hm rfl rfl rfl rfl rfl rfl
    next =>
      split
      next m ms hm => exact h.take hm
      next => exact h

theorem Queued.arrive (h : Queued s) (m : StructCtrlMsg) :
    Queued { s with ctrlMsgIn := s.ctrlMsgIn ++ [m], entered := s.entered ++ [m] } where
  bearing := by
    rw [List.filter_append, List.filter_append, List.map_append, List.map_append, h.bearing,
      List.append_assoc, List.append_assoc]
    rfl
  free := by
    rw [List.filter_append, List.filter_append, List.map_append, List.map_append, h.free,
      List.append_assoc]
  bears := h.bears
  lengths := h.lengths
  fetched := h.fetched

theorem Queued.step (h : Queued s) (a : Action) : Queued (s.step a) := by
  cases a with
  | arrive m => exact h.arrive m
  | answer r =>
    show Queued (s.answer r)
    unfold DataFetch.answer
    split
    next => exact ⟨h.bearing, h.free, h.bears, h.lengths, h.fetched⟩
    next => exact h
  | beat =>
    show Queued s.beat
    unfold DataFetch.beat
    split
    next => exact ⟨h.bearing, h.free, h.bears, h.lengths, h.fetched⟩
    next => exact h
  | loop =>
    show Queued s.loop
    unfold DataFetch.loop
    split
    next m ms hm =>
      have hwait : s.waiting = s.loopIn ++ [m] ++ ms := by
        rw [waiting, hm, List.append_assoc, List.singleton_append]
      obtain ⟨hbearing, hfree, hbears, hlen, hfetched⟩ := h
      rw [hwait] at hbearing hbears hlen hfetched
      exact ⟨hbearing, hfree, hbears, hlen, hfetched⟩
    next => exact h
  | tick => exact h.tick

/-! ## The payloads -/

/-- The beats of a reply as `parser` gets them. -/
abbrev dataMsgs (b : List StructH2cData) : List StructDataMsg :=
  b.map h2cDataToDataMsg

theorem dataMsgs_append (b b' : List StructH2cData) :
    dataMsgs (b ++ b') = dataMsgs b ++ dataMsgs b' :=
  List.map_append

/-- The replies in `done` have gone to the messages that have been passed on, but for the beats in
`rest`; those in `pend` are for messages that wait. -/
structure Paired (s : DataFetch) (done pend : List (List StructH2cData))
    (rest : List StructH2cData) : Prop where
  replies : s.replies = done ++ pend
  bursts : ∀ b ∈ s.replies, Burst (dataMsgs b)
  served : done.length = (s.ctrlMsgOut.filter (·.bears)).length
  beats : s.h2cDataIn ++ s.h2cData = rest ++ pend.flatten
  data : s.dataMsgOut ++ dataMsgs rest = dataMsgs done.flatten
  ended : s.regEndFlag = true → rest = []
  begun : s.regEndFlag = false →
    Burst (dataMsgs rest) ∧ ∃ bs b, done = bs ++ [b ++ rest] ∧ b ≠ []

variable {done pend : List (List StructH2cData)} {rest : List StructH2cData}

/-- The next beat of a payload. -/
theorem Paired.next {d : StructH2cData} {ds : List StructH2cData} (h : Paired s done pend rest)
    (hd : s.h2cDataIn = d :: ds) (hflag : s.regEndFlag = false) :
    ∃ rest', rest = d :: rest' ∧ Paired { s with
      h2cDataIn := ds
      dataMsgOut := s.dataMsgOut ++ [h2cDataToDataMsg d]
      regEndFlag := if d.last = 1 then true else false } done pend rest' := by
  obtain ⟨hburst, bs, b, hdone, hb⟩ := h.begun hflag
  have hbeats := h.beats
  rw [hd] at hbeats
  cases rest with
  | nil => exact absurd rfl hburst.ne_nil
  | cons d' rest' =>
    obtain ⟨rfl, htail⟩ := List.cons.inj hbeats
    refine ⟨rest', rfl, h.replies, h.bursts, h.served, htail, ?_, ?_, ?_⟩
    · rw [List.append_assoc]
      exact h.data
    · intro hend
      rcases burst_cons.mp hburst with ⟨-, hnil⟩ | ⟨hlast, -⟩
      · exact List.map_eq_nil_iff.mp hnil
      · have hlast : ¬d.last = 1 := by
          rw [show d.last = 0 from hlast]
          decide
        exact absurd ((if_neg hlast).symm.trans hend) Bool.false_ne_true
    · intro hend
      rcases burst_cons.mp hburst with ⟨hlast, -⟩ | ⟨-, hrest⟩
      · exact absurd ((if_pos hlast).symm.trans hend) Bool.false_ne_true.symm
      · refine ⟨hrest, bs, b ++ [d], ?_, List.append_ne_nil_of_right_ne_nil _ (List.cons_ne_nil _ _)⟩
        rw [hdone, List.append_assoc, List.singleton_append]

/-- The first beat of a payload, with its message. -/
theorem Paired.first {d : StructH2cData} {ds : List StructH2cData} {m : StructCtrlMsg}
    {ms : List StructCtrlMsg} (h : Paired s done pend rest) (hb : m.bears = true)
    (hd : s.h2cDataIn = d :: ds) (hflag : s.regEndFlag = true) :
    ∃ b pend' rest', pend = b :: pend' ∧ Paired { s with
      loopIn := ms
      ctrlMsgOut := s.ctrlMsgOut ++ [m]
      h2cDataIn := ds
      dataMsgOut := s.dataMsgOut ++ [h2cDataToDataMsg d]
      regEndFlag := if d.last = 0 then false else true } (done ++ [b]) pend' rest' := by
  obtain rfl := h.ended hflag
  have hbeats := h.beats
  have hbursts := h.bursts
  rw [hd, List.nil_append] at hbeats
  rw [h.replies] at hbursts
  cases pend with
  | nil => cases hbeats
  | cons b pend' =>
    have hburst : Burst (dataMsgs b) := hbursts b (List.mem_append_right _ (List.mem_cons_self ..))
    cases b with
    | nil => exact absurd rfl hburst.ne_nil
    | cons d' rest' =>
      obtain ⟨rfl, htail⟩ := List.cons.inj hbeats
      refine ⟨d :: rest', pend', rest', rfl, ?_, h.bursts, ?_, htail, ?_, ?_, ?_⟩
      · rw [List.append_assoc]
        exact h.replies
      · show _ = ((s.ctrlMsgOut ++ [m]).filter (·.bears)).length
        rw [filter_concat_of_pos _ hb, List.length_append, List.length_append, h.served]
        rfl
      · have hdata := h.data
        rw [dataMsgs, List.map_nil, List.append_nil] at hdata
        show s.dataMsgOut ++ [h2cDataToDataMsg d] ++ dataMsgs rest' = _
        rw [hdata, List.flatten_concat, dataMsgs_append, List.append_assoc]
        rfl
      · intro hend
        rcases burst_cons.mp hburst with ⟨-, hnil⟩ | ⟨hlast, -⟩
        · exact List.map_eq_nil_iff.mp hnil
        · exact absurd ((if_pos hlast).symm.trans hend) Bool.false_ne_true
      · intro hend
        rcases burst_cons.mp hburst with ⟨hlast, -⟩ | ⟨-, hrest⟩
        · have hlast : ¬d.last = 0 := by
            rw [show d.last = 1 from hlast]
            decide
          exact absurd ((if_neg hlast).symm.trans hend) Bool.false_ne_true.symm
        · exact ⟨hrest, done, [d], rfl, List.cons_ne_nil _ _⟩

/-- A message from the input does not disturb the payloads. -/
theorem Paired.take {m : StructCtrlMsg} (ms : List StructCtrlMsg) (h : Paired s done pend rest) :
    Paired (s.take m ms) done pend rest := by
  cases hb : m.bears with
  | true =>
    rw [take_bears ms hb]
    exact ⟨h.replies, h.bursts, h.served, h.beats, h.data, h.ended, h.begun⟩
  | false =>
    rw [take_free ms hb]
    have hkeep : (s.ctrlMsgOut ++ [m.sized]).filter (·.bears) = s.ctrlMsgOut.filter (·.bears) :=
      filter_concat_of_neg _ hb
    exact ⟨h.replies, h.bursts, h.served.trans (congrArg List.length hkeep.symm), h.beats, h.data,
      h.ended, h.begun⟩

theorem Paired.tick (h : Paired s done pend rest) (hq : Queued s) :
    ∃ done' pend' rest', Paired s.tick done' pend' rest' := by
  unfold DataFetch.tick
  split
  next hflag =>
    split
    next d ds hd =>
      obtain ⟨rest', -, h'⟩ := h.next hd hflag
      exact ⟨done, pend, rest', h'⟩
    next => exact ⟨done, pend, rest, h⟩
  next hflag =>
    split
    next d ds m ms hd hm =>
      have hb : m.bears := hq.bears m
        (List.mem_append_left _ (hm ▸ List.mem_cons_self ..))
      obtain ⟨b, pend', rest', -, h'⟩ := h.first hb hd (eq_true_of_ne_false hflag)
      exact ⟨done ++ [b], pend', rest', h'⟩
    next =>
      split
      next m ms hm => exact ⟨done, pend, rest, h.take ms⟩
      next => exact ⟨done, pend, rest, h⟩

theorem Paired.answer (h : Paired s done pend rest) (r : Reply) :
    ∃ pend', Paired (s.answer r) done pend' rest := by
  unfold DataFetch.answer
  split
  next =>
    refine ⟨pend ++ [r.beats], ?_, ?_, h.served, ?_, h.data, h.ended, h.begun⟩
    · rw [h.replies, List.append_assoc]
    · exact List.forall_mem_append.mpr ⟨h.bursts, List.forall_mem_singleton.mpr r.burst⟩
    · rw [List.flatten_concat, ← List.append_assoc, ← List.append_assoc, h.beats]
  next => exact ⟨pend, h⟩

theorem Paired.beat (h : Paired s done pend rest) : Paired s.beat done pend rest := by
  unfold DataFetch.beat
  split
  next d ds hd =>
    refine ⟨h.replies, h.bursts, h.served, ?_, h.data, h.ended, h.begun⟩
    have hbeats := h.beats
    rw [hd] at hbeats
    rw [List.append_assoc]
    exact hbeats
  next => exact h

theorem Paired.step (h : Paired s done pend rest) (hq : Queued s) (a : Action) :
    ∃ done' pend' rest', Paired (s.step a) done' pend' rest' := by
  cases a with
  | arrive m =>
    exact ⟨done, pend, rest, h.replies, h.bursts, h.served, h.beats, h.data, h.ended, h.begun⟩
  | answer r =>
    obtain ⟨pend', h'⟩ := h.answer r
    exact ⟨done, pend', rest, h'⟩
  | beat => exact ⟨done, pend, rest, h.beat⟩
  | loop =>
    refine ⟨done, pend, rest, ?_⟩
    show Paired s.loop done pend rest
    unfold DataFetch.loop
    split
    next => exact ⟨h.replies, h.bursts, h.served, h.beats, h.data, h.ended, h.begun⟩
    next => exact h
  | tick => exact h.tick hq

/-- The host answers the commands in order. -/
def Answered (s : DataFetch) : Prop :=
  ∃ cmds, s.fetched = cmds ++ s.h2cCmd ∧ cmds.length = s.replies.length

theorem Answered.take {m : StructCtrlMsg} (ms : List StructCtrlMsg) (h : Answered s) :
    Answered (s.take m ms) := by
  obtain ⟨cmds, hfet, hlen⟩ := h
  cases hb : m.bears with
  | true =>
    rw [take_bears ms hb]
    refine ⟨cmds, ?_, hlen⟩
    rw [hfet, List.append_assoc]
  | false =>
    rw [take_free ms hb]
    exact ⟨cmds, hfet, hlen⟩

theorem Answered.step (h : Answered s) (a : Action) : Answered (s.step a) := by
  cases a with
  | arrive m => exact h
  | answer r =>
    show Answered (s.answer r)
    unfold DataFetch.answer
    split
    next c cs hcmd =>
      obtain ⟨cmds, hfet, hlen⟩ := h
      refine ⟨cmds ++ [c], ?_, ?_⟩
      · rw [hfet, hcmd, List.append_assoc, List.singleton_append]
      · rw [List.length_append, List.length_append, hlen]
        rfl
    next => exact h
  | beat =>
    show Answered s.beat
    unfold DataFetch.beat
    split
    next => exact h
    next => exact h
  | loop =>
    show Answered s.loop
    unfold DataFetch.loop
    split
    next => exact h
    next => exact h
  | tick =>
    show Answered s.tick
    unfold DataFetch.tick
    split
    next =>
      split
      next => exact h
      next => exact h
    next =>
      split
      next => exact h
      next =>
        split
        next => exact h.take _
        next => exact h

/-- All of it. -/
structure Inv (s : DataFetch) : Prop where
  queued : Queued s
  answered : Answered s
  paired : ∃ done pend rest, Paired s done pend rest

theorem Inv.start : Inv start where
  queued := by
    constructor
    · rfl
    · rfl
    · exact fun m hm => absurd hm List.not_mem_nil
    · exact fun m hm => absurd hm List.not_mem_nil
    · rfl
  answered := ⟨[], rfl, rfl⟩
  paired := by
    refine ⟨[], [], [], rfl, fun b hb => absurd hb List.not_mem_nil, rfl, rfl, rfl, fun _ => rfl, ?_⟩
    exact fun hflag => absurd hflag.symm Bool.false_ne_true

theorem Inv.step (h : Inv s) (a : Action) : Inv (s.step a) := by
  obtain ⟨done, pend, rest, hp⟩ := h.paired
  exact ⟨h.queued.step a, h.answered.step a, hp.step h.queued a⟩

theorem Inv.run (h : Inv s) (acts : List Action) : Inv (s.run acts) := by
  induction acts generalizing s with
  | nil => exact h
  | cons a acts ih => exact ih (h.step a)

/-- What has been passed on is a sequence of frames, the last of which may be incomplete. -/
theorem exists_frames : ∀ {ms : List StructCtrlMsg} {bs : List (List StructH2cData)},
    (∀ m ∈ ms, m.dataMsgLength = if m.bears then dsmCacheLineSize else 0) →
    (∀ b ∈ bs, Burst (dataMsgs b)) → bs.length = (ms.filter (·.bears)).length →
    ∃ fs : List Frame, fs.map Frame.msg = ms ∧ fs.flatMap Frame.beats = dataMsgs bs.flatten
  | [], bs, _, _, hlen => by
    obtain rfl := List.eq_nil_of_length_eq_zero hlen
    exact ⟨[], rfl, rfl⟩
  | m :: ms, bs, hsize, hburst, hlen => by
    obtain ⟨hm, hsize⟩ := List.forall_mem_cons.mp hsize
    cases hb : m.bears with
    | true =>
      rw [List.filter_cons_of_pos hb] at hlen
      cases bs with
      | nil => cases hlen
      | cons b bs =>
        obtain ⟨hfirst, hburst⟩ := List.forall_mem_cons.mp hburst
        obtain ⟨fs, hmsg, hbeats⟩ := exists_frames hsize hburst (Nat.succ.inj hlen)
        have hm : m.dataMsgLength = dsmCacheLineSize := by
          rw [hm, hb]
          rfl
        have hne : m.dataMsgLength ≠ 0 := by
          rw [hm]
          decide
        refine ⟨⟨m, dataMsgs b, fun h0 => absurd h0 hne, fun _ => hfirst⟩ :: fs, ?_, ?_⟩
        · rw [List.map_cons, hmsg]
        · rw [List.flatMap_cons, hbeats, List.flatten_cons, dataMsgs_append]
    | false =>
      rw [List.filter_cons_of_neg (ne_true_of_eq_false hb)] at hlen
      obtain ⟨fs, hmsg, hbeats⟩ := exists_frames hsize hburst hlen
      have hm : m.dataMsgLength = 0 := by
        rw [hm, hb]
        rfl
      refine ⟨⟨m, [], fun _ => rfl, fun hne => absurd hm hne⟩ :: fs, ?_, ?_⟩
      · rw [List.map_cons, hmsg]
      · rw [List.flatMap_cons, hbeats, List.nil_append]

/-- Whatever the order in which messages and beats arrive and the stage ticks:

* no message is lost or doubled, and those with a payload keep their order, and those without one;
* the commands are those for the messages with a payload, in that order, and the host answers them
  in that order;
* the beats that have been passed on are those of the replies to the commands for the messages that
  have been passed on, one reply after the other, but for what is left of the last;
* a message has the length of its payload, so that what has been passed on is a sequence of frames
  for `parser`. -/
theorem payloads_stay_with_messages (acts : List Action) :
    let s := start.run acts
    let served := s.ctrlMsgOut.filter (·.bears)
    (s.entered.filter (·.bears)).map StructCtrlMsg.sized =
      served ++ (s.waiting ++ (s.ctrlMsgIn.filter (·.bears)).map StructCtrlMsg.sized) ∧
    (s.entered.filter (!·.bears)).map StructCtrlMsg.sized =
      s.ctrlMsgOut.filter (!·.bears) ++
        (s.ctrlMsgIn.filter (!·.bears)).map StructCtrlMsg.sized ∧
    s.fetched = (served ++ s.waiting).map StructCtrlMsg.fetchCmd ∧
    (∃ cmds, s.fetched = cmds ++ s.h2cCmd ∧ cmds.length = s.replies.length) ∧
    (∃ done pend rest, s.replies = done ++ pend ∧ done.length = served.length ∧
      s.dataMsgOut ++ dataMsgs rest = dataMsgs done.flatten ∧
      s.h2cDataIn ++ s.h2cData = rest ++ pend.flatten ∧
      (s.regEndFlag = true → rest = []) ∧
      (s.regEndFlag = false → rest ≠ [] ∧ ∃ bs b, done = bs ++ [b ++ rest] ∧ b ≠ []) ∧
      ∃ fs : List Frame, fs.map Frame.msg = s.ctrlMsgOut ∧
        fs.flatMap Frame.beats = s.dataMsgOut ++ dataMsgs rest) ∧
    ∀ m ∈ s.ctrlMsgOut, m.dataMsgLength = if m.bears then dsmCacheLineSize else 0 := by
  intro s served
  obtain ⟨hq, ha, done, pend, rest, hp⟩ := Inv.start.run acts
  obtain ⟨hlen, -⟩ := List.forall_mem_append.mp hq.lengths
  have hbursts := hp.bursts
  rw [hp.replies] at hbursts
  obtain ⟨fs, hmsg, hbeats⟩ :=
    exists_frames hlen (List.forall_mem_append.mp hbursts).1 hp.served
  refine ⟨hq.bearing, hq.free, hq.fetched, ha, ⟨done, pend, rest, hp.replies, hp.served, hp.data,
    hp.beats, hp.ended, fun hflag => ?_, fs, hmsg, hbeats.trans hp.data.symm⟩, hlen⟩
  obtain ⟨hburst, bs, b, hdone, hb⟩ := hp.begun hflag
  refine ⟨fun hnil => hburst.ne_nil ?_, bs, b, hdone, hb⟩
  rw [hnil]
  rfl

end DataFetch

end Ting
