/-
# `Ting.System.Refinement` — the nodes refine the protocol

Whatever the nodes do together, the protocol can do, state by state: every step of a thread is
some turns of its copies or none, every step of an agent is none or the one that carries its
order out, and everything else is the same step (`System.refines`).  So what is proved of the
protocol holds of the lines of the caches.
-/
import Ting.System.Messages

namespace Ting

open Relation (ReflTransGen)

/-- The steps with which an agent carries out an order. -/
def ProtocolAction.isApply : ProtocolAction → Bool
  | apply _ _ => true
  | _ => false

/-! ## Hosts -/

theorem Host.step_nodeID {h h' : Host} {a : HostAction} (hs : Host.Stepped h a h') :
    h'.nodeID = h.nodeID := by
  cases hs with
  | insert hpc hi => cases hi <;> rfl
  | _ => rfl

namespace System

variable {qNum apptNum : ℕ} {ds : NodeId → List Addr} {s s' : System}

/-- Each node makes its own steps only. -/
theorem step_hosts {a : SystemAction} (hs : s.step qNum a = some s') (n : NodeId) :
    s'.hosts n = s.hosts n ∨ ∃ b, (s.hosts n).step b = some (s'.hosts n) := by
  have hset : ∀ {k : NodeId} {h : Host} {b : HostAction} {t : System},
      t.hosts = (s.setHost k h).hosts → (s.hosts k).step b = some h →
      t.hosts n = s.hosts n ∨ ∃ b, (s.hosts n).step b = some (t.hosts n) := by
    intro k h b t ht hb
    rw [ht, setHost_hosts]
    split
    next hk => subst hk; exact .inr ⟨b, hb⟩
    next => exact .inl rfl
  cases a with
  | internal a =>
      simp only [step] at hs
      split at hs
      next =>
        obtain ⟨f, -, rfl⟩ := Option.map_eq_some_iff.mp hs
        exact .inl rfl
      next => cases hs
  | host k a =>
      simp only [step] at hs
      split at hs
      next =>
        obtain ⟨h, hk, rfl⟩ := Option.map_eq_some_iff.mp hs
        exact hset rfl hk
      next => cases hs
  | send k τ junk =>
      obtain ⟨m, -, hs⟩ := Option.bind_eq_some_iff.mp hs
      obtain ⟨h, hk, rfl⟩ := Option.map_eq_some_iff.mp hs
      exact hset rfl hk
  | receive k τ | take k a =>
      obtain ⟨f, -, hs⟩ := Option.bind_eq_some_iff.mp hs
      obtain ⟨h, hk, rfl⟩ := Option.map_eq_some_iff.mp hs
      exact hset rfl hk

/-- Each node by itself is in a state that it can reach, whatever the others send it. -/
theorem hosts_reachable {ok : System → SystemAction → Prop}
    (h : (system qNum apptNum ds).ReachableWhen ok s) (n : NodeId) :
    (host apptNum (ds n)).Reachable (s.hosts n) := by
  refine h.invariant (P := fun s => (host apptNum (ds n)).Reachable (s.hosts n))
    (fun s (hi : Init apptNum ds s) => .init (s := s.hosts n) (hi.hosts n)) fun s a s' _ _ hr hs => ?_
  rcases step_hosts hs n with he | ⟨b, hb⟩
  · rw [he]
    exact hr
  · exact .step hr trivial hb

theorem nodeID {ok : System → SystemAction → Prop}
    (h : (system qNum apptNum ds).ReachableWhen ok s) (n : NodeId) : (s.hosts n).nodeID = n := by
  refine h.invariant (P := fun s => (s.hosts n).nodeID = n) (fun s (hi : Init apptNum ds s) => hi.nodeID n)
    fun s a s' _ _ hn hs => ?_
  rcases step_hosts hs n with he | ⟨b, hb⟩
  · rw [he]
    exact hn
  · exact (Host.step_nodeID (.of_step hb)).trans hn

end System

/-- Before anything is cached there are no copies. -/
theorem Host.Tracks.init {apptNum : ℕ} {ds : List Addr} {h : Host} (hi : Host.Init apptNum ds h) :
    h.Tracks fun _ => .absent where
  line r hr := absurd (hi.status r) hr
  found _ hb := absurd rfl hb
  thread τ := by
    refine ⟨fun r k hj => ?_, fun hn => ?_, .of_outstanding ?_ fun hw => ?_, fun m hm => ?_⟩
    · rw [hi.pc τ] at hj
      cases hj
    · rw [hi.startNext τ] at hn
      cases hn
    · rw [hi.pc τ]
      rfl
    · rw [hi.waitCur τ] at hw
      cases hw
    · rw [hi.stash τ] at hm
      cases hm

/-! ## The relation -/

namespace Protocol

/-- Change the copies of one node. -/
def setCopies (p : Protocol) (n : NodeId) (c : Block → Copy) : Protocol :=
  { p with copies := Function.update p.copies n c }

variable {p : Protocol} {n : NodeId} {c : Block → Copy}

@[simp] theorem setCopies_fabric : (p.setCopies n c).fabric = p.fabric := rfl

@[simp] theorem setCopies_hands : (p.setCopies n c).hands = p.hands := rfl

theorem setCopies_self : (p.setCopies n c).copies n = c :=
  Function.update_self ..

theorem setCopies_of_ne {k : NodeId} (h : k ≠ n) : (p.setCopies n c).copies k = p.copies k :=
  Function.update_of_ne h ..

theorem setCopies_setCopy {b : Block} {x : Copy} :
    (p.setCopies n c).setCopy n b x = p.setCopies n (Function.update c b x) := by
  simp [setCopies, setCopy]

/-- A step that is permitted is one of the guarded system. -/
theorem Stepped.when {qNum : ℕ} {ok : Protocol → ProtocolAction → Prop} {a : ProtocolAction}
    {p p' : Protocol} (hs : Stepped qNum p a p') (hok : ok p a) :
    (protocol qNum).StepWhen ok p p' :=
  ⟨a, hok, hs.step⟩

end Protocol

namespace System

variable {qNum apptNum : ℕ} {ds : NodeId → List Addr} {s s' : System} {p : Protocol}

/-- The protocol's state `p` describes the nodes. -/
structure Refines (s : System) (p : Protocol) : Prop where
  fabric : p.fabric = s.fabric
  issued : p.issued = s.issued
  replies : p.replies = s.replies
  hands : ∀ n a, (p.hands n a).map (·.msg) = ((s.hosts n).agents a).order
  copies : ∀ n, (s.hosts n).Tracks (p.copies n)

theorem Refines.init (hi : System.Init apptNum ds s) :
    ∃ p : Protocol, p.Init ∧ s.Refines p := by
  refine ⟨⟨s.fabric, fun _ _ => .absent, fun _ _ => none, s.issued, s.replies⟩,
    ⟨hi.fabric, fun _ _ => rfl, fun _ _ => rfl, hi.issued, hi.replies⟩, rfl, rfl, rfl,
    fun n a => ?_, fun n => .init (hi.hosts n)⟩
  rw [(hi.hosts n).agents a]
  rfl

/-- The copies of one node after some turns. -/
theorem turns_path {ok : Protocol → ProtocolAction → Prop}
    (hfree : ∀ p a, a.isApply = false → ok p a) {n : NodeId} {c : Block → Copy}
    (h : ReflTransGen Copy.Turned (p.copies n) c) :
    ReflTransGen ((protocol qNum).StepWhen ok) p (p.setCopies n c) := by
  induction h with
  | refl =>
      rw [Protocol.setCopies, Function.update_eq_self]
  | @tail c c' _ ht ih =>
      obtain ⟨b, x, ht, rfl⟩ := ht
      rw [← Protocol.setCopies_setCopy]
      rw [← Protocol.setCopies_self (p := p) (n := n) (c := c)] at ht
      exact ih.tail ((Protocol.Stepped.turn ht).when (hfree _ _ rfl))

/-- Node `n` has made a step; its copies are now `c`. -/
theorem Refines.copies_set {n : NodeId} {h : Host} {c : Block → Copy} (hR : s.Refines p)
    (hc : h.Tracks c) (k : NodeId) :
    ((s.setHost n h).hosts k).Tracks ((p.setCopies n c).copies k) := by
  rw [setHost_hosts]
  split
  next hk => subst hk; rw [Protocol.setCopies_self]; exact hc
  next hk => rw [Protocol.setCopies_of_ne hk]; exact hR.copies k

/-- The orders that the agents have in hand, after a step of node `n`. -/
theorem Refines.hands_set {n : NodeId} {h : Host} {H : NodeId → AgentId → Option Packet}
    (hR : s.Refines p) (hself : ∀ a, (H n a).map (·.msg) = (h.agents a).order)
    (hother : ∀ k, k ≠ n → H k = p.hands k) (k : NodeId) (a : AgentId) :
    (H k a).map (·.msg) = (((s.setHost n h).hosts k).agents a).order := by
  rw [setHost_hosts]
  split
  next hk => subst hk; exact hself a
  next hk => rw [hother k hk]; exact hR.hands k a

/-- The order that agent `i` has in hand, after a step of it. -/
theorem Refines.hands_agent {n : NodeId} {h : Host} {i : AgentId} {x : Option Packet}
    (hR : s.Refines p) (hself : x.map (·.msg) = (h.agents i).order)
    (hother : ∀ j, j ≠ i → h.agents j = (s.hosts n).agents j) (k : NodeId) (a : AgentId) :
    ((p.setHand n i x).hands k a).map (·.msg)
      = (((s.setHost n h).hosts k).agents a).order := by
  refine hR.hands_set (H := (p.setHand n i x).hands) (fun a => ?_) (fun k hk => ?_) k a
  · rw [Protocol.setHand_hands]
    split
    next ha => rw [ha.2]; exact hself
    next ha => rw [hother a fun he => ha ⟨rfl, he⟩]; exact hR.hands n a
  · funext a
    rw [Protocol.setHand_hands, if_neg fun hc => hk hc.1]

/-! ## Simulation -/

/-- What agent `i` of node `n` is about to do when it carries its order out: it is in the loop
at the line that it has found, or there is no copy. -/
def AboutTo (s : System) (p : Protocol) (n : NodeId) (i : AgentId) : Prop :=
  ∃ k, p.hands n i = some k ∧
    ((∃ r, (s.hosts n).agents i = .loop k.msg r) ∨ p.copies n k.msg.block = .absent)

/-- A thread takes an answer. -/
theorem Refines.receive {n : NodeId} {τ : ThreadId} {i : ℕ} {k : Packet} {h : Host}
    (hr : (system qNum apptNum ds).Reachable s) (hp : (protocol qNum).Reachable p)
    (hR : s.Refines p) (hi : s.fabric.front (.app n τ) = some i)
    (hf : s.fabric.flights[i]? = some ⟨.app n τ, k⟩)
    (hs : Host.Stepped (s.hosts n) (.receive τ k.msg) h) :
    Protocol.Stepped qNum p (.receive n τ) (p.afterReceive n τ i k) ∧
      (s.afterReceive n τ i k h).Refines (p.afterReceive n τ i k) := by
  rw [← hR.fabric] at hi hf
  obtain ⟨q, hasData, granted, hq, hτ, hw, -, -, hreply, htag, hsd, hout⟩ :=
    Protocol.receives hp (List.mem_of_getElem? hf)
  have hc := (hR.copies n).receive (hosts_reachable hr n) hs hq hτ hw hreply
    (of_decide_eq_true htag) hsd hout
  refine ⟨.receive hi hf, ?_, hR.issued, ?_, ?_, ?_⟩
  · exact congrArg (·.afterPop i) hR.fabric
  · show Function.update p.replies k.ticket.id _ = _
    rw [hR.replies]
    rfl
  · refine hR.hands_set (fun a => ?_) fun _ _ => rfl
    rw [hs.agents_other fun j hj => by cases hj]
    exact hR.hands _ a
  · exact hR.copies_set hc

/-- One step of the nodes is some steps of the protocol. -/
theorem Refines.step {ok : Protocol → ProtocolAction → Prop} {a : SystemAction}
    (hfree : ∀ p a, a.isApply = false → ok p a)
    (happly : ∀ n i, a = .host n (.agent i) → s.AboutTo p n i → ok p (.apply n i))
    (hr : (system qNum apptNum ds).Reachable s) (hp : (protocol qNum).Reachable p)
    (hR : s.Refines p) (hs : System.Stepped qNum s a s') :
    ∃ p', ReflTransGen ((protocol qNum).StepWhen ok) p p' ∧ s'.Refines p' := by
  have hone : ∀ {b : ProtocolAction} {p' : Protocol}, b.isApply = false →
      Protocol.Stepped qNum p b p' → s'.Refines p' →
      ∃ p', ReflTransGen ((protocol qNum).StepWhen ok) p p' ∧ s'.Refines p' :=
    fun hb hs hR' => ⟨_, .single (hs.when (hfree _ _ hb)), hR'⟩
  cases hs with
  | @internal a f ha hf =>
      refine hone rfl (.internal ha (by rw [hR.fabric]; exact hf)) ?_
      exact ⟨rfl, hR.issued, hR.replies, hR.hands, hR.copies⟩
  | @host n a h ha hs =>
      have hreach := hosts_reachable hr n
      cases hag : a.agent? with
      | none =>
          obtain ⟨c, hturns, hc⟩ := (hR.copies n).turns hreach hs ha hag
          refine ⟨p.setCopies n c, turns_path hfree hturns, hR.fabric, hR.issued, hR.replies,
            hR.hands_set (fun a => ?_) (fun _ _ => rfl), hR.copies_set hc⟩
          rw [hs.agents_other fun k hk => by rw [hag] at hk; cases hk]
          exact hR.hands n a
      | some i =>
          obtain rfl : a = .agent i := by
            cases a <;> cases hag <;> first | rfl | cases ha
          have hm : ∀ m, ((s.hosts n).agents i).order = some m →
              ∃ k, p.hands n i = some k ∧ k.msg = m ∧ m.mtype.isOrder ∧
                m.clineTag = m.block.getTag := by
            intro m hm
            obtain ⟨k, hk, rfl⟩ := Option.map_eq_some_iff.mp ((hR.hands n i).trans hm)
            obtain ⟨hord, -, htag⟩ := Protocol.hands_order hp hk
            exact ⟨k, hk, rfl, hord, of_decide_eq_true htag⟩
          have hother : ∀ j, j ≠ i → h.agents j = (s.hosts n).agents j := fun j hj =>
            hs.agents_other fun k hk => by cases hk; exact hj.symm
          rcases (hR.copies n).agent hreach (fun m ho => (hm m ho).choose_spec.2.2) hs with
            ⟨ho, hc⟩ | ⟨m, x, ho, ho', hat, hx, hc⟩
          · refine ⟨p.setCopies n (p.copies n), turns_path hfree .refl, hR.fabric, hR.issued,
              hR.replies, hR.hands_set (fun j => ?_) (fun _ _ => rfl), hR.copies_set hc⟩
            rcases eq_or_ne j i with rfl | hj
            · rw [ho]
              exact hR.hands n j
            · rw [hother j hj]
              exact hR.hands n j
          · obtain ⟨k, hk, rfl, -⟩ := hm m ho
            refine ⟨_, .single ((Protocol.Stepped.apply hk hx).when (happly n i rfl ⟨k, hk, hat⟩)),
              hR.fabric, hR.issued, hR.replies, ?_, ?_⟩
            · exact hR.hands_agent (x := none) ho'.symm hother
            · exact hR.copies_set hc
  | @send n τ junk m h hm hs =>
      obtain ⟨hn, hτ, htag, x, hask, hc⟩ :=
        (hR.copies n).send (p.origin m) (hosts_reachable hr n) hm hs
      rw [nodeID hr] at hn
      subst hn
      have hreq : m.mtype.isRequest := by
        obtain ⟨q, -, -, -, hk, hq⟩ := Copy.ask_eq hask
        have hasked := Protocol.asked hp m.reqClineNodeID m.block
        rw [hq] at hasked
        exact hk ▸ hasked.isRequest
      refine hone rfl (.request hreq htag (hτ ▸ hask)) ⟨?_, ?_, hR.replies, ?_, ?_⟩
      · exact congrArg (·.afterInject m) hR.fabric
      · show Function.update p.issued p.fabric.nextId (some (p.origin m)) = _
        rw [hR.issued, Protocol.origin, hR.fabric]
        rfl
      · refine hR.hands_set (fun a => ?_) fun _ _ => rfl
        rw [hs.agents_other fun k hk => by cases hk]
        exact hR.hands _ a
      · exact hR.copies_set hc
  | @receive n τ i k h hi hf hs =>
      obtain ⟨hstep, hR'⟩ := hR.receive hr hp hi hf hs
      exact hone rfl hstep hR'
  | @take n j i k h hi hf hs =>
      rw [← hR.fabric] at hi hf
      have hother : ∀ a, a ≠ j → h.agents a = (s.hosts n).agents a := fun a ha =>
        hs.agents_other fun b hb => by cases hb; exact ha.symm
      cases hs with
      | take hpc =>
          have hnone : p.hands n j = none :=
            Option.map_eq_none_iff.mp ((hR.hands n j).trans (by rw [hpc]; rfl))
          refine hone rfl (.take hnone hi hf) ⟨?_, hR.issued, hR.replies, ?_, ?_⟩
          · exact congrArg (·.afterPop i) hR.fabric
          · refine hR.hands_agent (x := some k) ?_ hother
            rw [Host.setAgent_agents, Function.update_self]
            rfl
          · have hc : ((s.hosts n).setAgent j (.lockSet k.msg)).Tracks (p.copies n) :=
              (hR.copies n).agentStill (Host.owned (hosts_reachable hr n)) rfl
                fun r => ⟨rfl, rfl, rfl⟩
            have hset := hR.copies_set (n := n) hc
            rwa [Protocol.setCopies, Function.update_eq_self] at hset

/-- The nodes refine the protocol.  A run of the nodes whose steps satisfy `ok` is described by
one of the protocol whose steps satisfy `ok'`, if `ok` says enough about the agents that carry
their orders out. -/
theorem refinesWhen {ok : System → SystemAction → Prop} {ok' : Protocol → ProtocolAction → Prop}
    (hfree : ∀ p a, a.isApply = false → ok' p a)
    (happly : ∀ (s : System) (p : Protocol) n i, s.Refines p → (protocol qNum).Reachable p →
      ok s (.host n (.agent i)) → s.AboutTo p n i → ok' p (.apply n i))
    (h : (system qNum apptNum ds).ReachableWhen ok s) :
    ∃ p, (protocol qNum).ReachableWhen ok' p ∧ s.Refines p := by
  refine h.simulated (fun _ hi => Refines.init hi) fun s a s' p hr hp hok hR hs => ?_
  refine hR.step hfree (fun n i ha hat => ?_) hr.reachable hp.reachable (.of_step hs)
  subst ha
  exact happly s p n i hR hp.reachable hok hat

/-- The same, for all runs. -/
theorem refines (h : (system qNum apptNum ds).Reachable s) :
    ∃ p, (protocol qNum).Reachable p ∧ s.Refines p :=
  refinesWhen (fun _ _ _ => trivial) (fun _ _ _ _ _ _ _ _ => trivial) h

end System

end Ting
