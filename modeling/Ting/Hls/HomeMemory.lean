/-
# `Ting.Hls.HomeMemory` — a home node and its memory

What happens at the home of a block: `deparser` hands the control message to the directory and
the payload to the write channel of the DMA engine, the directory takes up one message after the
other, and what it grants is read from memory by way of `dataMsgFetch`.  The three go on
independently: each channel of the DMA engine is in order, but nothing orders one with respect to
the other, nor the directory with respect to them.

The node is open.  Whatever the network brings may arrive, and the directory may take up the
messages that wait for it in any order.  A message is given a number when it arrives, which what
it causes carries on; numbers and the histories `arrived`, `written` and `applied` are for the
statements, no step looks at them but to keep the numbers apart.
-/
import Ting.Hls.HomeAddress

namespace Ting

/-- The bytes of a line. -/
abbrev Page := Fin 4096 → BitVec 8

/-- The memory of a host. -/
abbrev Memory := Addr → BitVec 8

namespace Memory

/-- A page is written at `addr`. -/
def write (mem : Memory) (addr : Addr) (page : Page) : Memory := fun a =>
  if h : (a - addr).toNat < 4096 then page ⟨(a - addr).toNat, h⟩ else mem a

/-- The page at `addr`. -/
def read (mem : Memory) (addr : Addr) : Page := fun i =>
  mem (addr + .ofNat 64 i)

/-- `a` is an address of the page at `addr`. -/
def inPage (addr a : Addr) : Bool :=
  (a - addr).toNat < 4096

theorem write_of_not_inPage {mem : Memory} {addr a : Addr} {page : Page}
    (h : inPage addr a = false) : mem.write addr page a = mem a :=
  dif_neg (of_decide_eq_false h)

theorem write_congr {mem mem' : Memory} {addr a : Addr} {page : Page} (h : mem a = mem' a) :
    mem.write addr page a = mem'.write addr page a := by
  unfold write
  split
  · rfl
  · exact h

theorem inPage_add (addr : Addr) (i : Fin 4096) : inPage addr (addr + .ofNat 64 i) := by
  have := i.isLt
  rw [inPage, BitVec.add_comm, BitVec.add_sub_cancel, BitVec.toNat_ofNat]
  exact decide_eq_true (by omega)

end Memory

/-- A message that `deparser` has taken from the network, with its payload if it has one. -/
structure Arrival where
  id : ℕ
  msg : CtrlMsg
  page : Page

/-- A payload on its way to memory. -/
structure C2hWrite where
  id : ℕ
  addr : Addr
  page : Page

/-- A message on its way to the network, with its payload if it has one. -/
structure Departure where
  id : ℕ
  msg : CtrlMsg
  page : Option Page

/-- A home node. -/
structure Home where
  dir : BlockIndex → DirDataE
  regs : DirRegs
  regId : ℕ
  /-- From `deparser` to the directory. -/
  inbox : List Arrival
  /-- From `deparser` to memory. -/
  writes : List C2hWrite
  /-- The messages of the directory that wait for their payload in `dataMsgFetch`. -/
  fetches : List Departure
  sent : List Departure
  mem : Memory
  arrived : List Arrival
  written : List C2hWrite
  /-- The last message whose payload the entry of a block counts on. -/
  applied : BlockIndex → Option ℕ

/-- One step of a stage, or of the DMA engine. -/
inductive HomeAction
  /-- `deparser` takes a message from the network. -/
  | arrive (a : Arrival)
  /-- The directory takes up the `i`-th message that waits for it. -/
  | dirTick (i : ℕ)
  /-- The directory continues its multicast. -/
  | dirCopy
  /-- The DMA engine writes a payload. -/
  | write
  /-- The DMA engine reads a block. -/
  | fetch

/-- The payload that `deparser` steers to memory. -/
def Arrival.toWrite (a : Arrival) : C2hWrite :=
  ⟨a.id, if a.msg.mtype.toGblock then a.msg.dirGblockAddr else a.msg.reqClineAddr, a.page⟩

/-- The directory brings the entry up to the payload of `m`. -/
def applies (m : CtrlMsg) (e : DirDataE) : Bool :=
  m.mtype = .agent2DirReadMissDirtyAckdata && e.state = .sToShared ||
    m.mtype = .rEvictDirty && e.state = .sDirty && e.dirGblockBitmap m.reqClineNodeID

namespace Home

/-- `deparser` takes message `a`. -/
def afterArrive (h : Home) (a : Arrival) : Home :=
  { h with
    inbox := if a.msg.mtype.toDir then h.inbox ++ [a] else h.inbox
    writes := if a.msg.mtype.hasData then h.writes ++ [a.toWrite] else h.writes
    arrived := h.arrived ++ [a] }

/-- The messages of `out` that wait for a payload. -/
def toFetch (id : ℕ) (out : Option CtrlMsg) : List Departure :=
  (out.toList.filter (·.mtype.fromGblock)).map fun m => ⟨id, m, none⟩

/-- And those that do not. -/
def toSend (id : ℕ) (out : Option CtrlMsg) : List Departure :=
  (out.toList.filter (!·.mtype.fromGblock)).map fun m => ⟨id, m, none⟩

/-- The tick of the directory on message `m`. -/
def tick (h : Home) (m : CtrlMsg) : DirTick :=
  transaction h.regs m (h.dir m.dirGblockIndex)

/-- The directory takes up message `a`, the `i`-th of its inbox. -/
def afterDirTick (h : Home) (i : ℕ) (a : Arrival) : Home :=
  let t := h.tick a.msg
  { h with
    dir := Function.update h.dir a.msg.dirGblockIndex t.dirData
    regs := t.regs
    regId := if t.regs.regCopyFlag then a.id else h.regId
    inbox := h.inbox.eraseIdx i
    fetches := h.fetches ++ toFetch a.id t.out
    sent := h.sent ++ toSend a.id t.out
    applied := if applies a.msg (h.dir a.msg.dirGblockIndex) then
      Function.update h.applied a.msg.dirGblockIndex (some a.id) else h.applied }

/-- The directory makes one step of its multicast. -/
def afterDirCopy (h : Home) : Home :=
  let t := copyStep h.regs
  { h with regs := t.1, sent := h.sent ++ toSend h.regId t.2 }

/-- The DMA engine writes `w`, and `ws` are still to be written. -/
def afterWrite (h : Home) (w : C2hWrite) (ws : List C2hWrite) : Home :=
  { h with writes := ws, mem := h.mem.write w.addr w.page, written := h.written ++ [w] }

/-- The DMA engine reads the payload of `d`, and `ds` are still to be read for. -/
def afterFetch (h : Home) (d : Departure) (ds : List Departure) : Home :=
  { h with
    fetches := ds
    sent := h.sent ++ [{ d with page := some (h.mem.read d.msg.dirGblockAddr) }] }

/-- The step function. -/
def step (a : HomeAction) (h : Home) : Option Home :=
  match a with
  | .arrive a => if h.arrived.all (·.id ≠ a.id) then some (h.afterArrive a) else none
  | .dirTick i =>
      if h.regs.regCopyFlag then none else h.inbox[i]?.map fun a => h.afterDirTick i a
  | .dirCopy => if h.regs.regCopyFlag then some h.afterDirCopy else none
  | .write => match h.writes with
      | [] => none
      | w :: ws => some (h.afterWrite w ws)
  | .fetch => match h.fetches with
      | [] => none
      | d :: ds => some (h.afterFetch d ds)

/-- After `INIT_DIR`: nothing has arrived yet. -/
structure Init (h : Home) : Prop where
  dir : ∀ i, (h.dir i).IsInit
  regs : h.regs.regCopyFlag = false
  inbox : h.inbox = []
  writes : h.writes = []
  fetches : h.fetches = []
  sent : h.sent = []
  arrived : h.arrived = []
  written : h.written = []
  applied : ∀ i, h.applied i = none

/-- What a step does, one constructor for each action. -/
inductive Stepped (h : Home) : HomeAction → Home → Prop
  | arrive (a : Arrival) (hid : ∀ x ∈ h.arrived, x.id ≠ a.id) :
      Stepped h (.arrive a) (h.afterArrive a)
  | dirTick (i : ℕ) (a : Arrival) (hr : h.regs.regCopyFlag = false) (hi : h.inbox[i]? = some a) :
      Stepped h (.dirTick i) (h.afterDirTick i a)
  | dirCopy (hr : h.regs.regCopyFlag) : Stepped h .dirCopy h.afterDirCopy
  | write (w : C2hWrite) (ws : List C2hWrite) (hw : h.writes = w :: ws) :
      Stepped h .write (h.afterWrite w ws)
  | fetch (d : Departure) (ds : List Departure) (hd : h.fetches = d :: ds) :
      Stepped h .fetch (h.afterFetch d ds)

theorem Stepped.of_step {h h' : Home} {a : HomeAction} (hs : step a h = some h') :
    Stepped h a h' := by
  cases a with
  | arrive a =>
      simp only [step, Option.ite_none_right_eq_some, List.all_eq_true, decide_eq_true_eq,
        Option.some.injEq] at hs
      obtain ⟨hid, rfl⟩ := hs
      exact .arrive a hid
  | dirTick i =>
      simp only [step, Option.ite_none_left_eq_some, Bool.not_eq_true, Option.map_eq_some_iff] at hs
      obtain ⟨hr, a, hi, rfl⟩ := hs
      exact .dirTick i a hr hi
  | dirCopy =>
      simp only [step, Option.ite_none_right_eq_some, Option.some.injEq] at hs
      obtain ⟨hr, rfl⟩ := hs
      exact .dirCopy hr
  | write =>
      cases hw : h.writes with
      | nil => simp only [step, hw, reduceCtorEq] at hs
      | cons w ws =>
          simp only [step, hw, Option.some.injEq] at hs
          exact hs ▸ .write w ws hw
  | fetch =>
      cases hd : h.fetches with
      | nil => simp only [step, hd, reduceCtorEq] at hs
      | cons d ds =>
          simp only [step, hd, Option.some.injEq] at hs
          exact hs ▸ .fetch d ds hd

end Home

/-- The home node that starts as `h₀`. -/
def home (h₀ : Home) : TransitionSystem Home HomeAction :=
  ⟨(· = h₀), Home.step⟩

end Ting
