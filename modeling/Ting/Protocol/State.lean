/-
# `Ting.Protocol.State` — the protocol, without the cache lines

The fabric, a `Copy` of every block at every node, and the order each agent has in hand.  The
system of `Ting.System` refines it: there a copy is the line that holds the block, and
finding that line is half of what the threads and the agents do.

`issued` and `replies` are bookkeeping: which request has which ticket, and which answers
were delivered under it, where, in order.
-/
import Ting.Protocol.Copy
import Ting.Soft.GlobalAddress

namespace Ting

/-- An answer a thread has taken from its queue. -/
structure Reply where
  node : NodeId
  thread : ThreadId
  mtype : RawMessageType
  deriving DecidableEq

/-- The state of the protocol. -/
structure Protocol where
  fabric : Fabric
  copies : NodeId → Block → Copy
  hands : NodeId → AgentId → Option Packet
  issued : ℕ → Option Origin
  replies : ℕ → List Reply

/-- One step of the fabric, of a thread or of an agent. -/
inductive ProtocolAction
  /-- The fabric moves. -/
  | internal (a : FabricAction)
  /-- A thread of node `n` turns its copy of block `b` into `c`. -/
  | turn (n : NodeId) (b : Block) (c : Copy)
  /-- A thread sends request `m` for its copy. -/
  | request (m : CtrlMsg)
  /-- Thread `τ` of node `n` takes an answer. -/
  | receive (n : NodeId) (τ : ThreadId)
  /-- Agent `a` of node `n` takes an order. -/
  | take (n : NodeId) (a : AgentId)
  /-- It carries it out. -/
  | apply (n : NodeId) (a : AgentId)

namespace Protocol

/-- Change one copy. -/
def setCopy (p : Protocol) (n : NodeId) (b : Block) (c : Copy) : Protocol :=
  { p with copies := Function.update p.copies n (Function.update (p.copies n) b c) }

@[simp] theorem setCopy_fabric (p : Protocol) (n : NodeId) (b : Block) (c : Copy) :
    (p.setCopy n b c).fabric = p.fabric := rfl

@[simp] theorem setCopy_hands (p : Protocol) (n : NodeId) (b : Block) (c : Copy) :
    (p.setCopy n b c).hands = p.hands := rfl

/-- A copy after one copy was changed. -/
theorem setCopy_copies (p : Protocol) (n k : NodeId) (b d : Block) (c : Copy) :
    (p.setCopy n b c).copies k d = if k = n ∧ d = b then c else p.copies k d := by
  by_cases hk : k = n
  · subst hk
    by_cases hd : d = b
    · subst hd
      simp [setCopy]
    · simp [setCopy, hd]
  · simp [setCopy, hk]

/-- The request under which `m` enters the fabric now. -/
def origin (p : Protocol) (m : CtrlMsg) : Origin :=
  ⟨⟨p.fabric.nextId, m.mtype⟩, m.header⟩

/-- A thread sends `m`, and its copy becomes `c`. -/
def afterRequest (p : Protocol) (m : CtrlMsg) (c : Copy) : Protocol :=
  { p.setCopy m.reqClineNodeID m.block c with
    fabric := p.fabric.afterInject m
    issued := Function.update p.issued p.fabric.nextId (some (p.origin m)) }

/-- Thread `τ` of node `n` takes the `i`-th message `k`. -/
def afterReceive (p : Protocol) (n : NodeId) (τ : ThreadId) (i : ℕ) (k : Packet) : Protocol :=
  { p.setCopy n k.msg.block ((p.copies n k.msg.block).advance k) with
    fabric := p.fabric.afterPop i
    replies := Function.update p.replies k.ticket.id
      (p.replies k.ticket.id ++ [⟨n, τ, k.msg.mtype⟩]) }

/-- Put something into, or take it out of, the hands of agent `a` of node `n`. -/
def setHand (p : Protocol) (n : NodeId) (a : AgentId) (k : Option Packet) : Protocol :=
  { p with hands := Function.update p.hands n (Function.update (p.hands n) a k) }

theorem setHand_hands (p : Protocol) (n k : NodeId) (a d : AgentId) (x : Option Packet) :
    (p.setHand n a x).hands k d = if k = n ∧ d = a then x else p.hands k d := by
  by_cases hk : k = n
  · subst hk
    by_cases hd : d = a
    · subst hd
      simp [setHand]
    · simp [setHand, hd]
  · simp [setHand, hk]

open Classical in
/-- The step function. -/
noncomputable def step (qNum : ℕ) (a : ProtocolAction) (p : Protocol) : Option Protocol :=
  match a with
  | .internal a =>
      if a.isInternal then (p.fabric.step qNum a).map fun f => { p with fabric := f } else none
  | .turn n b c => if Turn (p.copies n b) c then some (p.setCopy n b c) else none
  | .request m =>
      if m.mtype.isRequest ∧ m.clineTag = m.block.getTag then
        ((p.copies m.reqClineNodeID m.block).ask m.reqClineAppThreadID m.mtype (p.origin m)).map
          (p.afterRequest m)
      else none
  | .receive n τ =>
      (p.fabric.front (.app n τ)).bind fun i => p.fabric.flights[i]?.map fun f =>
        p.afterReceive n τ i f.packet
  | .take n a =>
      if p.hands n a = none then
        (p.fabric.front (.sys n a)).bind fun i => p.fabric.flights[i]?.map fun f =>
          { p.setHand n a (some f.packet) with fabric := p.fabric.afterPop i }
      else none
  | .apply n a =>
      (p.hands n a).bind fun k => ((p.copies n k.msg.block).obey k.msg.mtype).map fun c =>
        (p.setCopy n k.msg.block c).setHand n a none

/-- At the start nothing is cached. -/
structure Init (p : Protocol) : Prop where
  fabric : p.fabric.Init
  copies : ∀ n b, p.copies n b = .absent
  hands : ∀ n a, p.hands n a = none
  issued : ∀ i, p.issued i = none
  replies : ∀ i, p.replies i = []

/-- What a step of the protocol does, one constructor for each action. -/
inductive Stepped (qNum : ℕ) (p : Protocol) : ProtocolAction → Protocol → Prop
  | internal {a : FabricAction} {f : Fabric} (ha : a.isInternal)
      (hs : p.fabric.step qNum a = some f) :
      Stepped qNum p (.internal a) { p with fabric := f }
  | turn {n : NodeId} {b : Block} {c : Copy} (h : Turn (p.copies n b) c) :
      Stepped qNum p (.turn n b c) (p.setCopy n b c)
  | request {m : CtrlMsg} {c : Copy} (hm : m.mtype.isRequest) (ht : m.clineTag = m.block.getTag)
      (h : (p.copies m.reqClineNodeID m.block).ask m.reqClineAppThreadID m.mtype (p.origin m)
        = some c) :
      Stepped qNum p (.request m) (p.afterRequest m c)
  | receive {n : NodeId} {τ : ThreadId} {i : ℕ} {k : Packet}
      (hi : p.fabric.front (.app n τ) = some i) (h : p.fabric.flights[i]? = some ⟨.app n τ, k⟩) :
      Stepped qNum p (.receive n τ) (p.afterReceive n τ i k)
  | take {n : NodeId} {a : AgentId} {i : ℕ} {k : Packet} (hn : p.hands n a = none)
      (hi : p.fabric.front (.sys n a) = some i) (h : p.fabric.flights[i]? = some ⟨.sys n a, k⟩) :
      Stepped qNum p (.take n a) { p.setHand n a (some k) with fabric := p.fabric.afterPop i }
  | apply {n : NodeId} {a : AgentId} {k : Packet} {c : Copy} (hh : p.hands n a = some k)
      (h : (p.copies n k.msg.block).obey k.msg.mtype = some c) :
      Stepped qNum p (.apply n a) ((p.setCopy n k.msg.block c).setHand n a none)

theorem Stepped.of_step {qNum : ℕ} {p p' : Protocol} {a : ProtocolAction}
    (h : p.step qNum a = some p') : Stepped qNum p a p' := by
  have hfront : ∀ {loc : Loc} {g : ℕ → Packet → Protocol}, ((p.fabric.front loc).bind fun i =>
      p.fabric.flights[i]?.map fun f => g i f.packet) = some p' →
      ∃ i k, p.fabric.front loc = some i ∧ p.fabric.flights[i]? = some ⟨loc, k⟩ ∧ p' = g i k := by
    intro loc g h
    obtain ⟨i, hi, h⟩ := Option.bind_eq_some_iff.mp h
    obtain ⟨k, hk⟩ := Fabric.front_eq_some hi
    rw [hk] at h
    exact ⟨i, k, hi, hk, (Option.some.inj h).symm⟩
  cases a with
  | internal a =>
      simp only [step] at h
      split at h
      next ha =>
        obtain ⟨f, hf, rfl⟩ := Option.map_eq_some_iff.mp h
        exact .internal ha hf
      next => cases h
  | turn n b c =>
      simp only [step] at h
      split at h
      next ht => cases h; exact .turn ht
      next => cases h
  | request m =>
      simp only [step] at h
      split at h
      next hm =>
        obtain ⟨c, hc, rfl⟩ := Option.map_eq_some_iff.mp h
        exact .request hm.1 hm.2 hc
      next => cases h
  | receive n τ =>
      obtain ⟨i, k, hi, hk, rfl⟩ := hfront h
      exact .receive hi hk
  | take n a =>
      simp only [step] at h
      split at h
      next hn =>
        obtain ⟨i, k, hi, hk, rfl⟩ := hfront (g := fun i k =>
          { p.setHand n a (some k) with fabric := p.fabric.afterPop i }) h
        exact .take hn hi hk
      next => cases h
  | apply n a =>
      obtain ⟨k, hk, h⟩ := Option.bind_eq_some_iff.mp h
      obtain ⟨c, hc, rfl⟩ := Option.map_eq_some_iff.mp h
      exact .apply hk hc

theorem Stepped.step {qNum : ℕ} {p p' : Protocol} {a : ProtocolAction}
    (h : Stepped qNum p a p') : p.step qNum a = some p' := by
  cases h with
  | internal ha hs => simp [Protocol.step, ha, hs]
  | turn h => simp [Protocol.step, h]
  | request hm ht h => simp [Protocol.step, hm, ht, h]
  | receive hi h => simp [Protocol.step, hi, h]
  | take hn hi h => simp [Protocol.step, hn, hi, h]
  | apply hh h => simp [Protocol.step, hh, h]

end Protocol

/-- The protocol as a transition system. -/
noncomputable def protocol (qNum : ℕ) : TransitionSystem Protocol ProtocolAction :=
  ⟨Protocol.Init, Protocol.step qNum⟩

/-- The rule by which every invariant of the protocol is proved: what holds at the start and
survives each permitted step between reachable states holds of every state reached. -/
theorem Protocol.invariantWhen {qNum : ℕ} {ok : Protocol → ProtocolAction → Prop}
    {P : Protocol → Prop} (hinit : ∀ p : Protocol, p.Init → P p)
    (hstep : ∀ (p : Protocol) a p', (protocol qNum).Reachable p → (protocol qNum).Reachable p' →
      ok p a → P p → Stepped qNum p a p' → P p')
    {p : Protocol} (h : (protocol qNum).ReachableWhen ok p) : P p :=
  TransitionSystem.ReachableWhen.invariant hinit
    (fun p a p' hr hok ih hs => hstep p a p' hr.reachable (.step hr.reachable trivial hs) hok ih
      (Stepped.of_step hs)) h

/-- The same, for runs in which every step is permitted. -/
theorem Protocol.invariant {qNum : ℕ} {P : Protocol → Prop} (hinit : ∀ p : Protocol, p.Init → P p)
    (hstep : ∀ (p : Protocol) a p', (protocol qNum).Reachable p → P p → Stepped qNum p a p' → P p')
    {p : Protocol} (h : (protocol qNum).Reachable p) : P p :=
  invariantWhen hinit (fun p a p' hr _ _ ih hs => hstep p a p' hr ih hs) h

end Ting
