/-
# `Ting.Hls.C2hQueue` — messages from the card to the host

A thread of the host has a ring of 64 slots of 64 bytes in host memory.  A buffer manager on the
card, one for the application threads and one for the system threads, writes every message it is
handed into the next slot of the thread's ring, unless that would reach the head index that the
thread has published; then it keeps the message in a register and tries again, and takes no other
one, whatever thread it is for.  The thread polls the owner byte of the slot at its head, clears
it, publishes the head and steps it.

The streams between the manager and the memory are queues, and so is what lies between the host
and the head register of a queue: nothing in them is lost or overtaken, and they may take any time.
A write to memory is the 64 bytes of one message.  Left out are the debug counters.
-/
import Ting.Hls.Codec
import Ting.Lib.SlotRing

namespace Ting

open BitRange

/-- `max_msg_num_per_q`, and `rx_depth` of `channel_context`. -/
def maxMsgNumPerQ : ℕ := 64

/-- `max_msg_length`. -/
def maxMsgLength : ℕ := 64

/-- `struct_c2h_cmd`. -/
structure StructC2hCmd where
  addr : Addr
  len : BitVec 32
  qid : BitVec 11

/-- What the two buffer managers differ in: the number of queues, whose numbers fit in a byte, and
the name of the stream. -/
structure C2hMgr where
  qNum : ℕ
  pseudoQid : BitVec 11
  le : qNum ≤ 2 ^ 8

/-- The rings of the threads, apart from each other. -/
structure Rings (n : ℕ) where
  addr : Fin n → Addr
  fits : ∀ q, (addr q).toNat + maxMsgLength * maxMsgNumPerQ ≤ 2 ^ 64
  apart : ∀ p q, p ≠ q → (addr p).toNat + maxMsgLength * maxMsgNumPerQ ≤ (addr q).toNat ∨
    (addr q).toNat + maxMsgLength * maxMsgNumPerQ ≤ (addr p).toNat

/-- Where slot `i` of queue `q` lies. -/
def Rings.slot {n : ℕ} (r : Rings n) (q : Fin n) (i : ℕ) : Addr :=
  r.addr q + .ofNat 64 (maxMsgLength * i)

/-- `general_c2h_owner` of a message. -/
def owner (w : BitVec 512) : BitVec 8 := slice w 431 424

/-- The message with its owner byte cleared. -/
def clearOwner (w : BitVec 512) : BitVec 512 := setSlice w 431 424 (0 : BitVec 8)

/-- `rx_ring_buffer`, and where `recv` is; `last` is the slot that it returned last. -/
structure RxRingBuffer where
  head : ℕ
  lastUpdatedHead : ℕ
  stage : SlotRing.Stage (BitVec 512)
  last : Option ℕ

/-- A manager, the host and what is between them.  `handed`, `issued` and `received` are
histories: what was handed to the manager, what it has sent on, and what `recv` has returned. -/
structure C2hQueues (n : ℕ) where
  regQTidx : Fin n → ℕ
  regRetryFlag : Bool
  regRetryC2hData : StructC2hData
  c2hDataIn : List StructC2hData
  c2hCmdOut : List StructC2hCmd
  c2hDataOut : List StructC2hData
  qHidx : Fin n → ℕ
  posted : Fin n → List ℕ
  mem : Addr → BitVec 512
  rx : Fin n → RxRingBuffer
  handed : Fin n → List (BitVec 512)
  issued : Fin n → List (BitVec 512)
  received : Fin n → List (BitVec 512)

/-- One step. -/
inductive C2hAction (n : ℕ)
  | hand (q : Fin n) (m : StructCtrlMsg) (junk : StructC2hData)
  | tick
  | dma
  | arrive (q : Fin n)
  | poll (q : Fin n)
  | copy (q : Fin n)
  | clear (q : Fin n)
  | publish (q : Fin n)
  | stepHead (q : Fin n)

namespace C2hQueues

variable {n : ℕ}

/-! ## The card -/

/-- `tmp_q_id`: the queue of a message; outside the arrays the code is undefined. -/
def queueOf (n : ℕ) (d : StructC2hData) : Option (Fin n) :=
  if h : d.ctrlQid.toNat % 2 ^ 8 < n then some ⟨_, h⟩ else none

/-- The body of the manager, with a message in `tmp_c2h_data`. -/
def tryIssue (g : C2hMgr) (r : Rings g.qNum) (s : C2hQueues g.qNum) (d : StructC2hData)
    (q : Fin g.qNum) : C2hQueues g.qNum :=
  let tidx := s.regQTidx q % 2 ^ 8
  let hidx := s.qHidx q % 2 ^ 8
  let tidxPlus1 := if tidx = maxMsgNumPerQ - 1 then 0 else (tidx + 1) % 2 ^ 8
  if tidxPlus1 ≠ hidx then
    { s with
      regRetryC2hData := d
      c2hCmdOut := s.c2hCmdOut ++ [⟨r.slot q tidx, .ofNat 32 maxMsgLength, g.pseudoQid⟩]
      c2hDataOut := s.c2hDataOut ++ [{ d with ctrlQid := g.pseudoQid }]
      regQTidx := Function.update s.regQTidx q tidxPlus1
      regRetryFlag := false
      issued := Function.update s.issued q (s.issued q ++ [d.data]) }
  else { s with regRetryC2hData := d, regRetryFlag := true }

/-- A tick of a manager. -/
def multiBufferMgr (g : C2hMgr) (r : Rings g.qNum) (s : C2hQueues g.qNum) :
    Option (C2hQueues g.qNum) :=
  if s.regRetryFlag then
    (queueOf g.qNum s.regRetryC2hData).map fun q => s.tryIssue g r s.regRetryC2hData q
  else
    match s.c2hDataIn with
    | d :: rest => (queueOf g.qNum d).map fun q => tryIssue g r { s with c2hDataIn := rest } d q
    | [] => some s

/-- A message is handed to the manager, as `c2hCtrlMsgDeliverHLS` does. -/
def hand (g : C2hMgr) (s : C2hQueues g.qNum) (q : Fin g.qNum) (m : StructCtrlMsg)
    (junk : StructC2hData) : C2hQueues g.qNum :=
  let d := { (ctrlMsgToC2hData m g.pseudoQid junk).2 with ctrlQid := .ofNat 11 q }
  { s with
    c2hDataIn := s.c2hDataIn ++ [d]
    handed := Function.update s.handed q (s.handed q ++ [d.data]) }

/-- The oldest write reaches the memory of the host. -/
def dma (s : C2hQueues n) : Option (C2hQueues n) :=
  match s.c2hCmdOut, s.c2hDataOut with
  | c :: cs, d :: ds => some { s with
      c2hCmdOut := cs
      c2hDataOut := ds
      mem := Function.update s.mem c.addr d.data }
  | _, _ => none

/-- The oldest write to the head register of queue `q` reaches it. -/
def arrive (s : C2hQueues n) (q : Fin n) : Option (C2hQueues n) :=
  match s.posted q with
  | h :: rest => some { s with
      qHidx := Function.update s.qHidx q h
      posted := Function.update s.posted q rest }
  | [] => none

/-! ## The host -/

/-- The loop of `recv` and `recv_msg` ends. -/
def poll (r : Rings n) (s : C2hQueues n) (q : Fin n) : Option (C2hQueues n) :=
  match (s.rx q).stage with
  | .polling =>
      if owner (s.mem (r.slot q (s.rx q).head)) ≠ 0 then
        some { s with rx := Function.update s.rx q { s.rx q with stage := .found none } }
      else none
  | _ => none

/-- `recv_msg` copies the message. -/
def copy (r : Rings n) (s : C2hQueues n) (q : Fin n) : Option (C2hQueues n) :=
  match (s.rx q).stage with
  | .found none => some { s with rx := Function.update s.rx q { s.rx q with
      stage := .found (some (s.mem (r.slot q (s.rx q).head))) } }
  | _ => none

/-- `general_c2h_owner = 0`. -/
def clear (r : Rings n) (s : C2hQueues n) (q : Fin n) : Option (C2hQueues n) :=
  match (s.rx q).stage with
  | .found c => some { s with
      mem := Function.update s.mem (r.slot q (s.rx q).head)
        (clearOwner (s.mem (r.slot q (s.rx q).head)))
      rx := Function.update s.rx q { s.rx q with stage := .released c } }
  | _ => none

/-- `step_head` up to the new head: the head is published, twice if the last time was long ago. -/
def publish (s : C2hQueues n) (q : Fin n) : Option (C2hQueues n) :=
  match (s.rx q).stage with
  | .released c =>
      let count := ((s.rx q).head + maxMsgNumPerQ - (s.rx q).lastUpdatedHead) % maxMsgNumPerQ
      some { s with
        posted := Function.update s.posted q
          (s.posted q ++ List.replicate (if count ≥ 16 then 2 else 1) (s.rx q).head)
        rx := Function.update s.rx q { s.rx q with
          lastUpdatedHead := (s.rx q).head
          stage := .posted c } }
  | _ => none

/-- The new head, and the return of `recv` with the message. -/
def stepHead (r : Rings n) (s : C2hQueues n) (q : Fin n) : Option (C2hQueues n) :=
  match (s.rx q).stage with
  | .posted c => some { s with
      rx := Function.update s.rx q { s.rx q with
        head := ((s.rx q).head + 1) % maxMsgNumPerQ
        stage := .polling
        last := some (s.rx q).head }
      received := Function.update s.received q
        (s.received q ++ [c.getD (s.mem (r.slot q (s.rx q).head))]) }
  | _ => none

/-- The step function. -/
def step (g : C2hMgr) (r : Rings g.qNum) (a : C2hAction g.qNum) (s : C2hQueues g.qNum) :
    Option (C2hQueues g.qNum) :=
  match a with
  | .hand q m junk => some (hand g s q m junk)
  | .tick => multiBufferMgr g r s
  | .dma => s.dma
  | .arrive q => s.arrive q
  | .poll q => s.poll r q
  | .copy q => s.copy r q
  | .clear q => s.clear r q
  | .publish q => s.publish q
  | .stepHead q => s.stepHead r q

/-- Head, tail and published index of a queue are equal, no owner byte is set and nothing is under
way. -/
structure Init {n : ℕ} (r : Rings n) (s : C2hQueues n) : Prop where
  regQTidx : ∀ q, s.regQTidx q < maxMsgNumPerQ
  qHidx : ∀ q, s.qHidx q = s.regQTidx q
  head : ∀ q, (s.rx q).head = s.regQTidx q
  lastUpdatedHead : ∀ q, (s.rx q).lastUpdatedHead = 0
  retry : s.regRetryFlag = false
  dataIn : s.c2hDataIn = []
  cmdOut : s.c2hCmdOut = []
  dataOut : s.c2hDataOut = []
  posted : ∀ q, s.posted q = []
  mem : ∀ q, ∀ i < maxMsgNumPerQ, owner (s.mem (r.slot q i)) = 0
  stage : ∀ q, (s.rx q).stage = .polling
  last : ∀ q, (s.rx q).last = none
  handed : ∀ q, s.handed q = []
  issued : ∀ q, s.issued q = []
  received : ∀ q, s.received q = []

end C2hQueues

/-- A manager and its queues as a transition system. -/
def c2hQueues (g : C2hMgr) (r : Rings g.qNum) :
    TransitionSystem (C2hQueues g.qNum) (C2hAction g.qNum) :=
  ⟨C2hQueues.Init r, C2hQueues.step g r⟩

/-- `max_appt_num_per_node` queues, `PSEUDO_QID_BMAPP`. -/
def appMgr : C2hMgr := ⟨24, 0, by decide⟩

/-- `max_syst_num_per_node` queues, `PSEUDO_QID_BMSYS`. -/
def sysMgr : C2hMgr := ⟨8, 1, by decide⟩

/-- A tick of `c2hAppMultiBufferMgrHLS`. -/
def c2hAppMultiBufferMgrHLS (r : Rings 24) (s : C2hQueues 24) : Option (C2hQueues 24) :=
  s.multiBufferMgr appMgr r

/-- A tick of `c2hSysMultiBufferMgrHLS`. -/
def c2hSysMultiBufferMgrHLS (r : Rings 8) (s : C2hQueues 8) : Option (C2hQueues 8) :=
  s.multiBufferMgr sysMgr r

end Ting
