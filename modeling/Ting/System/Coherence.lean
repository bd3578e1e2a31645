/-
# `Ting.System.Coherence` — one writer or many readers

A directory takes an owner's acknowledgement as soon as its cache controller has passed the order
on, and not when an agent has carried it out.  So the next node may be granted the block while the
old owner still has its line.  As long as no thread brings a line to rest while such an order is
pending elsewhere (`Orderly`), a block that one node may write no other node may read.

The proof keeps three facts.  If the directory counts a reader, no order to give up writing is
pending at another node; if it counts a writer, no invalidation is pending at another node; and
the lines exclude each other.
-/
import Ting.System.Backing

namespace Ting

/-- The orders that must not be pending elsewhere when a line comes to permit reading, or
writing. -/
def RawMessageType.opposes (write : Bool) (t : RawMessageType) : Bool :=
  if write then t.isOrder else t.takesWrite

theorem RawMessageType.opposes_isOrder : ∀ (w : Bool) (t : RawMessageType), t.opposes w → t.isOrder := by
  decide

/-- No thread brings a line to rest while an order that opposes it is pending at another node. -/
def System.Orderly (s : System) (a : SystemAction) : Prop :=
  ∀ n τ, a = .host n (.thread τ) → ∀ r st, (s.hosts n).Settles τ r st → ∀ w, st.permits w →
    ∀ k, k ≠ n → ¬ s.Pending (·.opposes w) k ((s.hosts n).address r)

/-- Only an acknowledgement is of a class of acknowledgements. -/
theorem CtrlMsg.forReq_ack {d : RawMessageType → Bool} {n : NodeId} {b : Block} {m : CtrlMsg}
    (hd : ∀ t, d t = true → t.isAck = true)
    (hm : m.mtype.isRequest ∨ m.mtype.isAnswer ∨ m.mtype.isOrder) : m.forReq d n b = 0 := by
  have hclass : ∀ t : RawMessageType, t.isRequest = true ∨ t.isAnswer = true ∨ t.isOrder = true →
      t.isAck = false := by decide
  refine if_neg fun ht => ?_
  have hack := hd _ ht
  rw [hclass _ hm] at hack
  cases hack

/-- An agent gets an order in hand only by taking it. -/
theorem Host.Stepped.order {h h' : Host} {a : HostAction} (hs : Host.Stepped h a h') {i : AgentId}
    {m : CtrlMsg} (ho : (h'.agents i).order = some m) :
    (h.agents i).order = some m ∨ a = .take i m := by
  by_cases hi : a.agent? = some i
  · have hself : ∀ {k : Host} {q : AgentPc}, h'.agents = (k.setAgent i q).agents →
        q.order = some m := by
      intro k q he
      rw [he, setAgent_agents, Function.update_self] at ho
      exact ho
    cases hs with
    | take =>
        cases hi
        cases hself rfl
        exact .inr rfl
    | agentLock hpc | agentSkip hpc | agentFound hpc | agentShadowSkip hpc =>
        cases hi
        have := hself rfl
        rw [hpc]
        exact .inl this
    | agentLooked hpc =>
        cases hi
        rw [hpc]
        have := hself rfl
        unfold afterFind at this
        split at this <;> first | exact .inl this | cases this
    | agentObey | agentFault | agentUnlock =>
        cases hi
        cases hself rfl
    | _ => cases hi
  · rw [hs.agents_other fun k hk he => hi (hk.trans (congrArg some he))] at ho
    exact .inl ho

namespace System

variable {qNum apptNum : ℕ} {ds : NodeId → List Addr} {s s' : System} {p : Protocol}
  {a : SystemAction} {n k : NodeId} {b : Block} {d : RawMessageType → Bool} {w : Bool}

/-! ## Steps of the nodes -/

/-- What a thread sends is a request. -/
theorem Refines.sends (hR : s.Refines p) (hp : (protocol qNum).Reachable p)
    (hr : (system qNum apptNum ds).Reachable s) {τ : ThreadId} {junk m : CtrlMsg} {h : Host}
    (hm : (s.hosts n).sends τ junk = some m) (hs : Host.Stepped (s.hosts n) (.send τ junk) h) :
    m.mtype.isRequest := by
  obtain ⟨-, -, -, x, hask, -⟩ := (hR.copies n).send (p.origin m) (hosts_reachable hr n) hm hs
  obtain ⟨q, -, -, -, hk, hq⟩ := Copy.ask_eq hask
  have hasked := Protocol.asked hp n m.block
  rw [hq] at hasked
  exact hk ▸ hasked.isRequest

/-- A step that is not one of the fabric leaves the books of the directory alone. -/
theorem Stepped.value_eq (hs : Stepped qNum s a s') (hr : (system qNum apptNum ds).Reachable s)
    (ha : ∀ x, a ≠ .internal x) (L : Ledger b)
    (hL : ∀ f : Flight, (f.packet.msg.mtype.isRequest ∨ f.packet.msg.mtype.isAnswer ∨
      f.packet.msg.mtype.isOrder) → L.flight f = 0) : L.value s'.fabric = L.value s.fabric := by
  obtain ⟨p, hp, hR⟩ := refines hr
  have hroute := (Protocol.fabricInv hp).routed
  rw [hR.fabric] at hroute
  cases hs with
  | internal => exact absurd rfl (ha _)
  | host => rfl
  | @send n τ junk m h hm hs =>
      have hreq : m.mtype.isRequest := hR.sends hp hr hm hs
      refine (L.value_inject _ _).trans ?_
      rw [hL _ (.inl hreq), Nat.add_zero]
  | receive hi hf hs =>
      have := L.value_pop hf
      rwa [hL _ (.inr (.inl (hroute _ (List.mem_of_getElem? hf)).1)), Nat.add_zero] at this
  | take hi hf hs =>
      have := L.value_pop hf
      rwa [hL _ (.inr (.inr (hroute _ (List.mem_of_getElem? hf)).1)), Nat.add_zero] at this

/-- And no order becomes pending with it. -/
theorem Stepped.pending_of (hs : Stepped qNum s a s') (hr : (system qNum apptNum ds).Reachable s)
    (ha : ∀ x, a ≠ .internal x) (hd : ∀ t, d t → t.isOrder) (hpend : s'.Pending d k b) :
    s.Pending d k b := by
  obtain ⟨p, hp, hR⟩ := refines hr
  -- a node that makes a step without taking an order
  have hhost : ∀ {n : NodeId} {x : HostAction} {h : Host}, Host.Stepped (s.hosts n) x h →
      (∀ i m, x ≠ .take i m) → (∃ i m, (((s.setHost n h).hosts k).agents i).order = some m ∧
        m.OrderOf d k b) → ∃ i m, ((s.hosts k).agents i).order = some m ∧ m.OrderOf d k b := by
    rintro n x h hs hx ⟨i, m, ho, hm⟩
    refine ⟨i, m, ?_, hm⟩
    rw [setHost_hosts] at ho
    split at ho
    next hk =>
      subst hk
      exact (hs.order ho).resolve_right (hx i m)
    next => exact ho
  cases hs with
  | internal => exact absurd rfl (ha _)
  | host hl hs =>
      refine hpend.imp id (hhost hs fun i m he => ?_)
      rw [he] at hl
      cases hl
  | @send n τ junk m h hm hs =>
      rcases hpend with ⟨f, hf, ho⟩ | hag
      · rcases List.mem_append.mp hf with hf | hf
        · exact .inl ⟨f, hf, ho⟩
        · cases List.mem_singleton.mp hf
          have hclass : ∀ t : RawMessageType, t.isRequest = true → t.isOrder = false := by decide
          have hreq : m.mtype.isRequest := hR.sends hp hr hm hs
          have hord : m.mtype.isOrder := hd _ ho.mtype
          rw [hclass _ hreq] at hord
          cases hord
      · exact .inr (hhost hs (by rintro i m ⟨⟩) hag)
  | receive hi hf hs =>
      refine hpend.imp ?_ (hhost hs (by rintro i m ⟨⟩))
      rintro ⟨f, hf, ho⟩
      exact ⟨f, List.mem_of_mem_eraseIdx hf, ho⟩
  | @take n j i x h hi hf hs =>
      rcases hpend with ⟨f, hf, ho⟩ | ⟨j', m, hag, ho⟩
      · exact .inl ⟨f, List.mem_of_mem_eraseIdx hf, ho⟩
      · rw [setHost_hosts] at hag
        split at hag
        next hk =>
          subst hk
          rcases hs.order hag with hold | he
          · exact .inr ⟨j', m, hold, ho⟩
          · cases he
            exact .inl ⟨_, List.mem_of_getElem? hf, ho⟩
        next => exact .inr ⟨j', m, hag, ho⟩

/-- A line comes to permit an access only when a thread brings it to rest. -/
theorem Stepped.permits (hs : Stepped qNum s a s') (hp : s'.Permits n b w) :
    s.Permits n b w ∨ ∃ τ r st, a = .host n (.thread τ) ∧ (s.hosts n).Settles τ r st ∧
      st.permits w ∧ (s.hosts n).address r = b := by
  obtain ⟨r, hr, rfl⟩ := hp
  have hset : ∀ {k : NodeId} {h : Host} {x : HostAction}, s'.hosts = (s.setHost k h).hosts →
      Host.Stepped (s.hosts k) x h → s.Permits n ((s'.hosts n).address r) w ∨
        ∃ τ r' st, (k = n ∧ x = .thread τ) ∧ (s.hosts n).Settles τ r' st ∧ st.permits w ∧
          (s.hosts n).address r' = (s'.hosts n).address r := by
    intro k h x hh hs
    rw [hh, setHost_hosts] at hr ⊢
    split at hr
    next hk =>
      subst hk
      rw [if_pos rfl]
      rcases hs.permits hr with hold | ⟨τ, st, hx, hst, hw, ha⟩
      · exact .inl hold
      · exact .inr ⟨τ, r, st, ⟨rfl, hx⟩, hst, hw, ha.symm⟩
    next hk =>
      rw [if_neg hk]
      exact .inl ⟨r, hr, rfl⟩
  cases hs with
  | internal => exact .inl ⟨r, hr, rfl⟩
  | host hl hs =>
      refine (hset rfl hs).imp id ?_
      rintro ⟨τ, r', st, ⟨rfl, rfl⟩, h⟩
      exact ⟨τ, r', st, rfl, h⟩
  | send hm hs =>
      refine (hset rfl hs).imp id ?_
      rintro ⟨τ, r', st, ⟨-, hx⟩, -⟩
      cases hx
  | receive hi hf hs =>
      refine (hset rfl hs).imp id ?_
      rintro ⟨τ, r', st, ⟨-, hx⟩, -⟩
      cases hx
  | take hi hf hs =>
      refine (hset rfl hs).imp id ?_
      rintro ⟨τ, r', st, ⟨-, hx⟩, -⟩
      cases hx

theorem Permits.read (h : s.Permits n b true) : s.Permits n b false := by
  obtain ⟨r, hr, hb⟩ := h
  refine ⟨r, ?_, hb⟩
  revert hr
  generalize (s.hosts n).status r = st
  revert st
  decide

/-! ## Steps of the fabric -/

/-- After a step of the fabric the copies are the same. -/
theorem Refines.internal (hR : s.Refines p) (hp : (protocol qNum).Reachable p) {x : FabricAction}
    {f : Fabric} (hx : x.isInternal) (hf : s.fabric.step qNum x = some f) :
    (protocol qNum).Reachable { p with fabric := f } ∧
      { s with fabric := f }.Refines { p with fabric := f } ∧ ∀ b, BlockStep b s.fabric f := by
  have hf' : p.fabric.step qNum x = some f := by rw [hR.fabric]; exact hf
  refine ⟨.step (a := .internal x) hp trivial (Protocol.Stepped.internal hx hf').step,
    ⟨rfl, hR.issued, hR.replies, hR.hands, hR.copies⟩, fun b => ?_⟩
  rw [← hR.fabric]
  exact (Protocol.fabricInv hp).blockStep hx hf' b

/-- The fabric lets pending orders be, and makes one pending only at a node that the directory
counts. -/
theorem Refines.internal_pending (hR : s.Refines p) (hp : (protocol qNum).Reachable p)
    {x : FabricAction} {f : Fabric} (hx : x.isInternal) (hf : s.fabric.step qNum x = some f)
    (hd : ∀ t, d t → t.isOrder) :
    (s.Pending d k b → { s with fabric := f }.Pending d k b) ∧
      ({ s with fabric := f }.Pending d k b → s.Pending d k b ∨
        (∃ t, d t ∧ t.takesWrite) ∧ s.fabric.CountsWriter k b ∨
        (∃ t, d t ∧ t.isSharedOrder) ∧ s.fabric.Counts k b) := by
  obtain ⟨hp', hR', hblock⟩ := hR.internal hp hx hf
  rw [hR.pending hp, hR'.pending hp', hR.fabric]
  change (_ ∨ 1 ≤ p.held d k b → _ ∨ 1 ≤ p.held d k b) ∧ (_ ∨ 1 ≤ p.held d k b → _)
  dsimp only
  rcases (hblock b).meant_cases (n := k) hd with hm | ⟨hm, hnew⟩
  · rw [hm]
    exact ⟨id, .inl⟩
  · rw [hm]
    refine ⟨Or.imp_left (by omega), fun _ => .inr ?_⟩
    exact hnew.imp id fun h => ⟨h.1, h.2.trans (Nat.le_add_left _ _)⟩

/-- A line that permits reading is counted after a step of the fabric only if it was before. -/
theorem Refines.counts_of_internal (hR : s.Refines p) (hp : (protocol qNum).Reachable p)
    {x : FabricAction} {f : Fabric} (hx : x.isInternal) (hf : s.fabric.step qNum x = some f)
    (hr : s.Permits n b false) (hc : f.Counts n b) : s.fabric.Counts n b := by
  obtain ⟨hp', hR', -⟩ := hR.internal hp hx hf
  rw [hR.backed hp hr]
  intro hpend
  exact (hR'.backed hp' hr).mp hc ((hR.internal_pending hp hx hf (by decide)).1 hpend)

/-- The same, of a writer. -/
theorem Refines.countsWriter_of_internal (hR : s.Refines p) (hp : (protocol qNum).Reachable p)
    {x : FabricAction} {f : Fabric} (hx : x.isInternal) (hf : s.fabric.step qNum x = some f)
    (hr : s.Permits n b true) (hc : f.CountsWriter n b) : s.fabric.CountsWriter n b := by
  obtain ⟨hp', hR', hblock⟩ := hR.internal hp hx hf
  obtain ⟨st, u, hcopy, -⟩ := hR.permits_iff.mp hr
  have hw := (hblock b).writes (n := n)
  have hrest : ∀ o, (p.copies n b).awaits o = none := fun o => by rw [hcopy]; rfl
  have hgrant : f.writeGranting n b = 0 := Protocol.asked_zero hp' (by decide) hrest
  have hrel : (Ledger.asked (·.isDirtyEvictAck) n b).value s.fabric = 0 := by
    rw [← hR.fabric]
    exact Protocol.asked_zero hp (by decide) hrest
  have hmeant : (Ledger.meant (·.takesWrite) n b).value s.fabric
      ≤ (Ledger.meant (·.takesWrite) n b).value f := by
    rcases (hblock b).meant_cases (n := n) (d := (·.takesWrite)) (by decide) with
      hm | ⟨hm, -⟩ <;> omega
  rw [hgrant, Ledger.writeHolding, Ledger.value_add, Ledger.value_add, Ledger.value_add,
    Ledger.value_add, hrel] at hw
  rw [Fabric.CountsWriter, Fabric.writeOwning] at hc ⊢
  omega

/-! ## The invariant -/

/-- What is so in every state that an orderly run reaches. -/
structure Coherent (s : System) : Prop where
  reader : ∀ n b, s.Permits n b false → s.fabric.Counts n b →
    ∀ k, k ≠ n → ¬ s.Pending (·.takesWrite) k b
  writer : ∀ n b, s.Permits n b true → s.fabric.CountsWriter n b →
    ∀ k, k ≠ n → ¬ s.Pending (·.revokes) k b
  alone : ∀ n k b, k ≠ n → s.Permits n b true → ¬ s.Permits k b false

/-- A reader that the directory counts and a writer exclude each other. -/
theorem Refines.excludes (hR : s.Refines p) (hp : (protocol qNum).Reachable p)
    (hne : k ≠ n) (hk : s.fabric.Counts k b) (hn : s.fabric.CountsWriter n b) : False := by
  have hex := (hR.fabric ▸ Protocol.fabricInv hp).exclusive hn hne
  rw [Fabric.Counts] at hk
  omega

theorem Coherent.internal (hc : s.Coherent) (hR : s.Refines p) (hp : (protocol qNum).Reachable p)
    {x : FabricAction} {f : Fabric} (hx : x.isInternal) (hf : s.fabric.step qNum x = some f) :
    Coherent { s with fabric := f } := by
  have hinv := hR.fabric ▸ Protocol.fabricInv hp
  refine ⟨fun n b hr hcount k hne hpend => ?_, fun n b hr hcount k hne hpend => ?_, hc.alone⟩
  · have hold := hR.counts_of_internal hp hx hf hr hcount
    rcases (hR.internal_pending hp hx hf (by decide)).2 hpend with
      hpend | ⟨-, hw⟩ | ⟨⟨t, ht, ht'⟩, -⟩
    · exact hc.reader n b hr hold k hne hpend
    · exact hR.excludes hp hne.symm hold hw
    · revert t
      decide
  · have hold := hR.countsWriter_of_internal hp hx hf hr hcount
    rcases (hR.internal_pending hp hx hf (by decide)).2 hpend with hpend | ⟨-, hw⟩ | ⟨-, hw⟩
    · exact hc.writer n b hr hold k hne hpend
    · exact hne (hinv.writer_unique hold hw)
    · exact hR.excludes hp hne hw hold

theorem Pending.mono {d d' : RawMessageType → Bool} (h : s.Pending d k b)
    (hd : ∀ t, d t → d' t) : s.Pending d' k b := by
  rcases h with ⟨f, hf, ho⟩ | ⟨i, m, hi, ho⟩
  · exact .inl ⟨f, hf, hd _ ho.mtype, ho.node, ho.block, ho.tag⟩
  · exact .inr ⟨i, m, hi, hd _ ho.mtype, ho.node, ho.block, ho.tag⟩

/-- A line that comes to rest finds no order pending elsewhere. -/
theorem Orderly.settled (hok : s.Orderly a) (hs : Stepped qNum s a s') (hp : s'.Permits n b w) :
    s.Permits n b w ∨ ∀ k, k ≠ n →
      ¬ s.Pending (·.takesWrite) k b ∧ (w → ¬ s.Pending (·.revokes) k b) := by
  refine hs.permits hp |>.imp id ?_
  rintro ⟨τ, r, st, ha, hst, hw, rfl⟩ k hne
  have hno := hok n τ ha r st hst w hw k hne
  have hclass : ∀ (w : Bool) (t : RawMessageType), (t.takesWrite → t.opposes w) ∧
      (w → t.revokes → t.opposes w) := by decide
  exact ⟨fun h => hno (h.mono fun t => (hclass w t).1),
    fun hw' h => hno (h.mono fun t => (hclass w t).2 hw')⟩

/-- One step keeps the invariant. -/
theorem Coherent.step (hc : s.Coherent) (hr : (system qNum apptNum ds).Reachable s)
    (hok : s.Orderly a) (hstep : s.step qNum a = some s') : s'.Coherent := by
  obtain ⟨p, hp, hR⟩ := refines hr
  have hs := Stepped.of_step hstep
  by_cases ha : ∃ x, a = .internal x
  · obtain ⟨x, rfl⟩ := ha
    cases hs with
    | internal hx hf => exact hc.internal hR hp hx hf
  have ha : ∀ x, a ≠ .internal x := fun x hx => ha ⟨x, hx⟩
  have hr' : (system qNum apptNum ds).Reachable s' := .step hr trivial hstep
  obtain ⟨p', hp', hR'⟩ := refines hr'
  have hpend : ∀ {d : RawMessageType → Bool} {k b}, (∀ t, d t → t.isOrder) → ¬ s.Pending d k b →
      ¬ s'.Pending d k b := fun hd hno h => hno (hs.pending_of hr ha hd h)
  have hreader : ∀ n b, s'.Permits n b false → s'.fabric.Counts n b →
      ∀ k, k ≠ n → ¬ s'.Pending (·.takesWrite) k b := by
    intro n b hread hcount k hne
    refine hpend (by decide) ?_
    rcases hok.settled hs hread with hold | hnew
    · have howning := hs.value_eq hr ha (.owning n b) fun f => CtrlMsg.forReq_ack (by decide)
      have howing := hs.value_eq hr ha (.owing n b) fun _ _ => rfl
      refine hc.reader n b hold ?_ k hne
      rwa [Fabric.Counts, Fabric.owning, howning, howing] at hcount
    · exact (hnew k hne).1
  have hwriter : ∀ n b, s'.Permits n b true → s'.fabric.CountsWriter n b →
      ∀ k, k ≠ n → ¬ s'.Pending (·.revokes) k b := by
    intro n b hwrite hcount k hne
    refine hpend (by decide) ?_
    rcases hok.settled hs hwrite with hold | hnew
    · have howning := hs.value_eq hr ha (.writeOwning n b) fun f => CtrlMsg.forReq_ack (by decide)
      refine hc.writer n b hold ?_ k hne
      rwa [Fabric.CountsWriter, Fabric.writeOwning, howning] at hcount
    · exact (hnew k hne).2 rfl
  refine ⟨hreader, hwriter, fun n k b hne hwrite hread => ?_⟩
  have hbacked : s'.fabric.Counts k b ∨ s'.Pending (·.revokes) k b := by
    by_cases hrev : s'.Pending (·.revokes) k b
    · exact .inr hrev
    · exact .inl ((hR'.backed hp' hread).mpr hrev)
  have hbackedW := hR'.backed_write hp' hwrite
  rcases hok.settled hs hread with hread' | hnew
  · rcases hok.settled hs hwrite with hwrite' | hnew
    · exact hc.alone n k b hne hwrite' hread'
    · have hcount := hbacked.resolve_right (hpend (by decide) ((hnew k hne).2 rfl))
      rcases hbackedW with hw | hw
      · exact hR'.excludes hp' hne hcount hw
      · exact hreader k b hread hcount n hne.symm hw
  · have hw := hbackedW.resolve_right (hpend (by decide) (hnew n hne.symm).1)
    rcases hbacked with hcount | hrev
    · exact hR'.excludes hp' hne hcount hw
    · exact hwriter n b hwrite hw k hne hrev

/-- Before anything is cached no line permits anything. -/
theorem not_permits_init (hi : Init apptNum ds s) : ¬ s.Permits n b w := by
  rintro ⟨r, hr, -⟩
  rw [show (s.hosts n).status r = .preserved from (hi.hosts n).status r] at hr
  cases hr

/-- One writer or many readers: when node `n` may write a block, no other node may read it.  This
is so in every state of a run in which no thread brings a line to rest while an order that opposes
it is pending at another node. -/
theorem single_writer (h : (system qNum apptNum ds).ReachableWhen Orderly s)
    (hn : s.Permits n b true) (hne : k ≠ n) : ¬ s.Permits k b false := by
  refine (h.invariant (P := Coherent) (fun s hi => ?_) fun s a s' hr hok hc hs => ?_).alone n k b
    hne hn
  · exact ⟨fun _ _ hr => (not_permits_init hi hr).elim,
      fun _ _ hr => (not_permits_init hi hr).elim, fun _ _ _ _ hr => (not_permits_init hi hr).elim⟩
  · exact hc.step hr.reachable hok hs

/-! ## Runs -/

open HostAction (ofThread ofAgent)

open SystemAction (ofHost ofFabric)

/-- Thread 0 of node `n` writes block 5 of node 0, and asks for it. -/
def asksToWrite (n : NodeId) : List SystemAction :=
  ofHost n (.call 0 false true ⟨0, 5⟩ :: ofThread 0 30 ++ .insert 0 0 :: ofThread 0 24) ++
    [.send n 0 (.about .initDir ⟨0, 5⟩)]

/-- Node 1 has written the block, and node 2 is about to: the cache controller of node 1 has
shipped it, and the order is on its way to the agents. -/
def handsOver : List SystemAction :=
  asksToWrite 1 ++ ofFabric [.dirTick 0, .ccTick 0] ++ .receive 1 0 :: ofHost 1 (ofThread 0 7) ++
    asksToWrite 2 ++ ofFabric [.dirTick 0, .ccTick 0, .ccTick 1, .ccCopy 1]

/-- No order is on its way or in the hands of an agent when a thread ends a request. -/
def quiet (s : System) (a : SystemAction) : Bool :=
  match a with
  | .host n (.thread τ) =>
      match ((s.hosts n).threads τ).pc with
      | .finish _ _ _ | .evictRestore =>
          s.fabric.flights.all (fun f => !f.packet.msg.mtype.isOrder) ∧
            ∀ k i, ((s.hosts k).agents i).order = none
      | _ => true
  | _ => true

theorem orderly_of_quiet (s : System) (a : SystemAction) (hq : s.quiet a) : s.Orderly a := by
  rintro n τ rfl r st hst w - k - hpend
  have hq : s.fabric.flights.all (fun f => !f.packet.msg.mtype.isOrder) ∧
      ∀ k i, ((s.hosts k).agents i).order = none := by
    unfold quiet at hq
    cases hst with
    | request hpc | eviction hpc =>
        simp only [hpc] at hq
        exact of_decide_eq_true hq
  rcases hpend with ⟨f, hf, ho⟩ | ⟨i, m, hi, -⟩
  · have := List.all_eq_true.mp hq.1 f hf
    rw [RawMessageType.opposes_isOrder _ _ ho.mtype] at this
    cases this
  · rw [hq.2] at hi
    cases hi

/-- If an agent of node 1 invalidates the line before node 2 takes the block, node 2 is the only
one that may use it. -/
theorem single_writer_handsOver : ∃ s : System, s.Permits 2 ⟨0, 5⟩ true ∧ ¬ s.Permits 1 ⟨0, 5⟩ false := by
  obtain ⟨s, hr, hv⟩ := TransitionSystem.exists_reachableWhen (T := system 8 1 fun _ => [1])
    (f := fun s => ((s.hosts 2).status ⟨false, 63045, 7⟩, (s.hosts 2).address ⟨false, 63045, 7⟩))
    (v := (.modified, ⟨0, 5⟩))
    (handsOver ++ .take 1 0 :: ofHost 1 (ofAgent 0 20) ++ .receive 2 0 :: ofHost 2 (ofThread 0 1))
    orderly_of_quiet (start_init 1 fun _ => [1]) (by decide +kernel)
  obtain ⟨hst, ha⟩ := Prod.mk.inj hv
  have hw : s.Permits 2 ⟨0, 5⟩ true := ⟨_, by rw [hst]; rfl, ha⟩
  exact ⟨s, hw, single_writer hr hw (by decide)⟩

/-- If node 2 takes the block first, both may write it. -/
theorem two_writers : ∃ s : System, (system 8 1 fun _ => [1]).Reachable s ∧
    s.Permits 1 ⟨0, 5⟩ true ∧ s.Permits 2 ⟨0, 5⟩ true := by
  obtain ⟨s, hr, hv⟩ := TransitionSystem.exists_reachable (T := system 8 1 fun _ => [1])
    (f := fun s =>
      (((s.hosts 1).status ⟨false, 63045, 7⟩, (s.hosts 1).address ⟨false, 63045, 7⟩),
        (s.hosts 2).status ⟨false, 63045, 7⟩, (s.hosts 2).address ⟨false, 63045, 7⟩))
    (v := ((.modified, ⟨0, 5⟩), .modified, ⟨0, 5⟩))
    (handsOver ++ .receive 2 0 :: ofHost 2 (ofThread 0 1)) (start_init 1 fun _ => [1])
    (by decide +kernel)
  obtain ⟨h₁, h₂⟩ := Prod.mk.inj hv
  obtain ⟨hst₁, ha₁⟩ := Prod.mk.inj h₁
  obtain ⟨hst₂, ha₂⟩ := Prod.mk.inj h₂
  exact ⟨s, hr, ⟨_, by rw [hst₁]; rfl, ha₁⟩, ⟨_, by rw [hst₂]; rfl, ha₂⟩⟩

end System

end Ting
