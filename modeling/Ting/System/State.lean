/-
# `Ting.System.State` — all nodes together

The hosts of all nodes on top of the fabric.  A thread that sends puts its message into the
fabric; what a thread or an agent receives is the first message of its queue.  Everything else
that a host does is its own.

`issued` and `replies` are the bookkeeping of `Ting.Protocol.State`: no step looks at them.
-/
import Ting.Hls.Accounting
import Ting.Protocol.State
import Ting.Soft.HostStepped

namespace Ting

/-- The steps that a host makes without the fabric. -/
def HostAction.isLocal : HostAction → Bool
  | call _ _ _ _ | thread _ | insert _ _ | agent _ => true
  | send _ _ | receive _ _ | take _ _ => false

/-- The state of all nodes. -/
structure System where
  fabric : Fabric
  hosts : NodeId → Host
  issued : ℕ → Option Origin
  replies : ℕ → List Reply

/-- One step of the fabric, of a thread or of an agent. -/
inductive SystemAction
  /-- The fabric moves. -/
  | internal (a : FabricAction)
  /-- Node `n` makes a step of its own. -/
  | host (n : NodeId) (a : HostAction)
  /-- Thread `τ` of node `n` sends its request. -/
  | send (n : NodeId) (τ : ThreadId) (junk : CtrlMsg)
  /-- Thread `τ` of node `n` takes an answer. -/
  | receive (n : NodeId) (τ : ThreadId)
  /-- Agent `a` of node `n` takes an order. -/
  | take (n : NodeId) (a : AgentId)

namespace System

/-- Node `n` makes a step. -/
def setHost (s : System) (n : NodeId) (h : Host) : System :=
  { s with hosts := Function.update s.hosts n h }

/-- A host after one host was changed. -/
theorem setHost_hosts (s : System) (n k : NodeId) (h : Host) :
    (s.setHost n h).hosts k = if k = n then h else s.hosts k := by
  by_cases hk : k = n
  · subst hk
    simp [setHost]
  · simp [setHost, hk]

@[simp] theorem setHost_fabric (s : System) (n : NodeId) (h : Host) :
    (s.setHost n h).fabric = s.fabric := rfl

@[simp] theorem setHost_issued (s : System) (n : NodeId) (h : Host) :
    (s.setHost n h).issued = s.issued := rfl

@[simp] theorem setHost_replies (s : System) (n : NodeId) (h : Host) :
    (s.setHost n h).replies = s.replies := rfl

/-- The request under which `m` enters the fabric now. -/
def origin (s : System) (m : CtrlMsg) : Origin :=
  ⟨⟨s.fabric.nextId, m.mtype⟩, m.header⟩

/-- Node `n` has sent `m`. -/
def afterSend (s : System) (n : NodeId) (m : CtrlMsg) (h : Host) : System :=
  { s.setHost n h with
    fabric := s.fabric.afterInject m
    issued := Function.update s.issued s.fabric.nextId (some (s.origin m)) }

/-- Thread `τ` of node `n` has taken the `i`-th message `k`. -/
def afterReceive (s : System) (n : NodeId) (τ : ThreadId) (i : ℕ) (k : Packet) (h : Host) :
    System :=
  { s.setHost n h with
    fabric := s.fabric.afterPop i
    replies := Function.update s.replies k.ticket.id
      (s.replies k.ticket.id ++ [⟨n, τ, k.msg.mtype⟩]) }

/-- The first message of a queue and its position. -/
def first (s : System) (loc : Loc) : Option (ℕ × Packet) :=
  (s.fabric.front loc).bind fun i => s.fabric.flights[i]?.map fun f => (i, f.packet)

/-- The step function. -/
def step (qNum : ℕ) (a : SystemAction) (s : System) : Option System :=
  match a with
  | .internal a =>
      if a.isInternal then (s.fabric.step qNum a).map fun f => { s with fabric := f } else none
  | .host n a => if a.isLocal then ((s.hosts n).step a).map (s.setHost n) else none
  | .send n τ junk =>
      ((s.hosts n).sends τ junk).bind fun m =>
        ((s.hosts n).step (.send τ junk)).map (s.afterSend n m)
  | .receive n τ =>
      (s.first (.app n τ)).bind fun f =>
        ((s.hosts n).step (.receive τ f.2.msg)).map (s.afterReceive n τ f.1 f.2)
  | .take n a =>
      (s.first (.sys n a)).bind fun f =>
        ((s.hosts n).step (.take a f.2.msg)).map fun h =>
          { s.setHost n h with fabric := s.fabric.afterPop f.1 }

/-- At the start the entries are initialised and the caches are empty. -/
structure Init (apptNum : ℕ) (ds : NodeId → List Addr) (s : System) : Prop where
  fabric : s.fabric.Init
  hosts : ∀ n, Host.Init apptNum (ds n) (s.hosts n)
  nodeID : ∀ n, (s.hosts n).nodeID = n
  issued : ∀ i, s.issued i = none
  replies : ∀ i, s.replies i = []

/-- What a step of the system does, one constructor for each action. -/
inductive Stepped (qNum : ℕ) (s : System) : SystemAction → System → Prop
  | internal {a : FabricAction} {f : Fabric} (ha : a.isInternal)
      (hs : s.fabric.step qNum a = some f) :
      Stepped qNum s (.internal a) { s with fabric := f }
  | host {n : NodeId} {a : HostAction} {h : Host} (ha : a.isLocal)
      (hs : Host.Stepped (s.hosts n) a h) : Stepped qNum s (.host n a) (s.setHost n h)
  | send {n : NodeId} {τ : ThreadId} {junk m : CtrlMsg} {h : Host}
      (hm : (s.hosts n).sends τ junk = some m)
      (hs : Host.Stepped (s.hosts n) (.send τ junk) h) :
      Stepped qNum s (.send n τ junk) (s.afterSend n m h)
  | receive {n : NodeId} {τ : ThreadId} {i : ℕ} {k : Packet} {h : Host}
      (hi : s.fabric.front (.app n τ) = some i) (hf : s.fabric.flights[i]? = some ⟨.app n τ, k⟩)
      (hs : Host.Stepped (s.hosts n) (.receive τ k.msg) h) :
      Stepped qNum s (.receive n τ) (s.afterReceive n τ i k h)
  | take {n : NodeId} {a : AgentId} {i : ℕ} {k : Packet} {h : Host}
      (hi : s.fabric.front (.sys n a) = some i) (hf : s.fabric.flights[i]? = some ⟨.sys n a, k⟩)
      (hs : Host.Stepped (s.hosts n) (.take a k.msg) h) :
      Stepped qNum s (.take n a) { s.setHost n h with fabric := s.fabric.afterPop i }

theorem first_eq {s : System} {loc : Loc} {i : ℕ} {k : Packet} (h : s.first loc = some (i, k)) :
    s.fabric.front loc = some i ∧ s.fabric.flights[i]? = some ⟨loc, k⟩ := by
  obtain ⟨j, hj, h⟩ := Option.bind_eq_some_iff.mp h
  obtain ⟨p, hp⟩ := Fabric.front_eq_some hj
  rw [hp] at h
  cases h
  exact ⟨hj, hp⟩

theorem Stepped.of_step {qNum : ℕ} {s s' : System} {a : SystemAction}
    (h : s.step qNum a = some s') : Stepped qNum s a s' := by
  cases a with
  | internal a =>
      simp only [step] at h
      split at h
      next ha =>
        obtain ⟨f, hf, rfl⟩ := Option.map_eq_some_iff.mp h
        exact .internal ha hf
      next => cases h
  | host n a =>
      simp only [step] at h
      split at h
      next ha =>
        obtain ⟨k, hk, rfl⟩ := Option.map_eq_some_iff.mp h
        exact .host ha (.of_step hk)
      next => cases h
  | send n τ junk =>
      obtain ⟨m, hm, h⟩ := Option.bind_eq_some_iff.mp h
      obtain ⟨k, hk, rfl⟩ := Option.map_eq_some_iff.mp h
      exact .send hm (.of_step hk)
  | receive n τ =>
      obtain ⟨⟨i, p⟩, hf, h⟩ := Option.bind_eq_some_iff.mp h
      obtain ⟨k, hk, rfl⟩ := Option.map_eq_some_iff.mp h
      obtain ⟨hi, hp⟩ := first_eq hf
      exact .receive hi hp (.of_step hk)
  | take n a =>
      obtain ⟨⟨i, p⟩, hf, h⟩ := Option.bind_eq_some_iff.mp h
      obtain ⟨k, hk, rfl⟩ := Option.map_eq_some_iff.mp h
      obtain ⟨hi, hp⟩ := first_eq hf
      exact .take hi hp (.of_step hk)

end System

/-- The nodes as a transition system: `qNum` system queues and `apptNum` application threads a
node, and the buffers `ds n` on node `n`. -/
def system (qNum apptNum : ℕ) (ds : NodeId → List Addr) : TransitionSystem System SystemAction :=
  ⟨System.Init apptNum ds, System.step qNum⟩

/-- The rule by which the invariants of the system are proved. -/
theorem System.invariantWhen {qNum apptNum : ℕ} {ds : NodeId → List Addr}
    {ok : System → SystemAction → Prop} {P : System → Prop}
    (hinit : ∀ s, System.Init apptNum ds s → P s)
    (hstep : ∀ (s : System) a s', (system qNum apptNum ds).ReachableWhen ok s → ok s a → P s →
      System.Stepped qNum s a s' → P s')
    {s : System} (h : (system qNum apptNum ds).ReachableWhen ok s) : P s :=
  h.invariant hinit fun s a s' hr hok hp hs => hstep s a s' hr hok hp (.of_step hs)

/-- The same, for runs in which every step is permitted. -/
theorem System.invariant {qNum apptNum : ℕ} {ds : NodeId → List Addr} {P : System → Prop}
    (hinit : ∀ s, System.Init apptNum ds s → P s)
    (hstep : ∀ (s : System) a s', (system qNum apptNum ds).Reachable s → P s →
      System.Stepped qNum s a s' → P s')
    {s : System} (h : (system qNum apptNum ds).Reachable s) : P s :=
  System.invariantWhen hinit (fun s a s' hr _ hp hs => hstep s a s' hr hp hs) h

/-! ## Runs -/

/-- Node `n` makes these steps by itself. -/
def SystemAction.ofHost (n : NodeId) (as : List HostAction) : List SystemAction :=
  as.map (.host n)

/-- The fabric makes these steps. -/
def SystemAction.ofFabric (as : List FabricAction) : List SystemAction :=
  as.map .internal

open HostAction (ofThread)

open SystemAction (ofHost ofFabric)

namespace System

/-- No node has anything cached. -/
def start (apptNum : ℕ) (ds : NodeId → List Addr) : System :=
  ⟨Fabric.start, fun n => Host.start n apptNum (ds n), fun _ => none, fun _ => []⟩

theorem start_init (apptNum : ℕ) (ds : NodeId → List Addr) :
    Init apptNum ds (start apptNum ds) :=
  ⟨Fabric.start_init, fun n => Host.start_init n apptNum (ds n), fun _ => rfl, fun _ => rfl,
    fun _ => rfl⟩

/-- Thread 0 of node `n` makes `k` steps up to a request about block 5 of node 0, and sends it. -/
def asks (n : NodeId) (k : ℕ) : List SystemAction :=
  ofHost n (ofThread 0 k) ++ [.send n 0 (.about .initDir ⟨0, 5⟩)]

/-- Thread 0 of node `n` reads block 5 of node 0 for the first time. -/
def reads (n : NodeId) : List SystemAction :=
  ofHost n (Host.insertLine 0 ⟨0, 5⟩) ++ asks n 22 ++ ofFabric [.dirTick 0, .ccTick 0] ++
    .receive n 0 :: ofHost n (ofThread 0 7)

end System

end Ting
