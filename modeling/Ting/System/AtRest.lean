/-
# `Ting.System.AtRest` — what the directory knows of the lines

While a node has no request for a block outstanding, its line is as good as the directory's word:
either the directory counts the node and the line may be read, or an invalidation of it is pending,
or neither, and the line may not be read (`line_backed`).  So when nothing is going on for a block
the bitmap of its entry is the set of its readers (`bitmap_exact`).

That the one holder of an `S_DIRTY` entry may write is so as long as every downgrade is carried out
in time (`Timely`): one that has been overtaken hits the line of a later write miss.
-/
import Ting.System.Coherence

namespace Ting

/-- The node that acts. -/
def SystemAction.node? : SystemAction → Option NodeId
  | .internal _ => none
  | .host n _ | .send n _ _ | .receive n _ | .take n _ => some n

namespace System

variable {qNum apptNum : ℕ} {ds : NodeId → List Addr} {s s' : System} {p : Protocol}
  {a : SystemAction} {n k : NodeId} {b : Block} {w : Bool}

/-- No thread of node `n` has a request for block `b` outstanding. -/
def Idle (s : System) (n : NodeId) (b : Block) : Prop :=
  ∀ r, (s.hosts n).address r = b → ((s.hosts n).status r).isTransient = false

/-- Nothing is going on for block `b`: no message about it is in transit or in a register, no agent
has an order about it in hand, and no thread has a request for it outstanding. -/
structure AtRest (s : System) (b : Block) : Prop where
  flights : ∀ f ∈ s.fabric.flights, f.packet.msg.block ≠ b
  dirRegs : (s.fabric.dirRegs b.nodeID).regCopyFlag → (s.fabric.dirRegs b.nodeID).regCtrlMsg.block ≠ b
  ccRegs : ∀ n, (s.fabric.ccRegs n).regCopyFlag → (s.fabric.ccRegs n).regCtrlMsg.block ≠ b
  agents : ∀ n i m, ((s.hosts n).agents i).order = some m → m.block ≠ b
  threads : ∀ n, s.Idle n b

/-- An idle copy is at rest, or there is none. -/
theorem Refines.copy_idle (hR : s.Refines p) (hp : (protocol qNum).Reachable p) (hi : s.Idle n b) :
    p.copies n b = .absent ∨ ∃ st u, p.copies n b = .resting st u := by
  cases hc : p.copies n b with
  | absent => exact .inl rfl
  | resting st u => exact .inr ⟨st, u, rfl⟩
  | claimed q =>
      obtain ⟨r, hne, hb⟩ := (hR.copies n).found b (by rw [hc]; rintro ⟨⟩)
      have hat := (hR.copies n).line r hne
      rw [hb, hc] at hat
      have hasked := Protocol.asked hp n b
      rw [hc] at hasked
      have hidle := hi r hb
      rw [Host.status, hat.2.1, Claim.status_isTransient hasked.isRequest] at hidle
      cases hidle

/-- An idle copy waits for nothing and has no flag, and it stands for a right if it permits
reading. -/
theorem Refines.idle (hR : s.Refines p) (hp : (protocol qNum).Reachable p) (hi : s.Idle n b) :
    (∀ o, (p.copies n b).awaits o = none) ∧ (p.copies n b).flagged = false ∧
      (p.copies n b).right ≤ 1 ∧ ((p.copies n b).right = 1 ↔ s.Permits n b false) ∧
        ((p.copies n b).writeRight = 1 ↔ s.Permits n b true) := by
  rw [hR.permits_iff, hR.permits_iff]
  rcases hR.copy_idle hp hi with hc | ⟨st, u, hc⟩ <;> rw [hc]
  · have hno : ∀ {w : Bool}, ¬ ∃ st u, Copy.absent = .resting st u ∧ st.status.permits w := by
      rintro w ⟨_, _, ⟨⟩, _⟩
    exact ⟨fun _ => rfl, rfl, Nat.zero_le _, iff_of_false (by rintro ⟨⟩) hno,
      iff_of_false (by rintro ⟨⟩) hno⟩
  · refine ⟨fun _ => rfl, rfl, ?_, ?_, ?_⟩
    · cases st <;> first | exact le_rfl | exact Nat.zero_le 1
    · constructor
      · intro h
        refine ⟨st, u, rfl, ?_⟩
        cases st <;> first | rfl | cases h
      · rintro ⟨st', u', he, hw⟩
        cases he
        cases st <;> first | rfl | cases hw
    · constructor
      · intro h
        refine ⟨st, u, rfl, ?_⟩
        cases st <;> first | rfl | cases h
      · rintro ⟨st', u', he, hw⟩
        cases he
        cases st <;> first | rfl | cases hw

/-- While a node has no request for a block outstanding, it may read the block just if the
directory counts it or an invalidation is pending; and these exclude each other. -/
theorem line_backed (h : (system qNum apptNum ds).Reachable s) (hi : s.Idle n b) :
    (s.Permits n b false ↔ s.fabric.Counts n b ∨ s.Pending (·.revokes) n b) ∧
      ¬ (s.fabric.Counts n b ∧ s.Pending (·.revokes) n b) := by
  obtain ⟨p, hp, hR⟩ := refines h
  obtain ⟨hw, hf, hle, hread, -⟩ := hR.idle hp hi
  have hright := Protocol.right_eq hp hw hf
  rw [← hread, hR.pending hp, Fabric.Counts, ← hR.fabric]
  omega

/-! ## Runs -/

/-- A node with a line for the block that is in no transient status has no request for it
outstanding. -/
theorem idle_of_line (h : (system qNum apptNum ds).Reachable s) {r : LineRef}
    (hr : (s.hosts n).address r = b) (hne : (s.hosts n).status r ≠ .preserved)
    (hs : ((s.hosts n).status r).isTransient = false) : s.Idle n b := by
  intro x hx
  by_cases hp : (s.hosts n).status x = .preserved
  · rw [hp]
    rfl
  · have hreach := hosts_reachable h n
    rwa [(Host.addressed hreach).unique (Host.tagged hreach) hp hne (hx.trans hr.symm)]

/-- A node that does not act stays as it is. -/
theorem run_hosts {as : List SystemAction} (hn : ∀ a ∈ as, a.node? ≠ some n)
    (h : (system qNum apptNum ds).run as s = some s') : s'.hosts n = s.hosts n := by
  induction as generalizing s with
  | nil =>
      cases h
      rfl
  | cons a as ih =>
      obtain ⟨t, ht, hrest⟩ := Option.bind_eq_some_iff.mp h
      rw [ih (fun x hx => hn x (List.mem_cons_of_mem _ hx)) hrest]
      have hne := hn a List.mem_cons_self
      have hset : ∀ {k : NodeId} {x : Host}, some k ≠ some n → (s.setHost k x).hosts n = s.hosts n := by
        intro k x hk
        rw [setHost_hosts, if_neg fun he => hk (congrArg some he.symm)]
      cases Stepped.of_step ht with
      | internal => rfl
      | host | send | receive | take => exact hset hne

/-- Nothing is in transit or in a register, and no agent has an order in hand. -/
def still (s : System) : Bool :=
  s.fabric.flights.isEmpty ∧
    (∀ n, (s.fabric.dirRegs n).regCopyFlag = false ∧ (s.fabric.ccRegs n).regCopyFlag = false) ∧
      ∀ n i, ((s.hosts n).agents i).order = none

/-- A block whose nodes are idle is at rest then. -/
theorem atRest_of_still (hs : s.still) (hi : ∀ n, s.Idle n b) : s.AtRest b := by
  obtain ⟨hfl, hregs, hag⟩ := of_decide_eq_true hs
  refine ⟨fun f hf => ?_, fun hc => ?_, fun n hc => ?_, fun n i m hm => ?_, hi⟩
  · rw [List.isEmpty_iff.mp hfl] at hf
    cases hf
  · rw [(hregs _).1] at hc
    cases hc
  · rw [(hregs n).2] at hc
    cases hc
  · rw [hag n i] at hm
    cases hm

/-- The line for block 5 of node 0, and the block that it keeps. -/
def lineFive (s : System) (n : NodeId) : CacheStatus × Block :=
  let r : LineRef := ⟨false, calLineSet (Block.getTag ⟨0, 5⟩), 7⟩
  ((s.hosts n).status r, (s.hosts n).address r)

/-- After a run in which only the nodes `ns` act, and which leaves their lines for the block stable
and nothing else going on, the block is at rest. -/
def restsFor (ns : List NodeId) (s : System) : Bool :=
  s.still && ns.all fun n => (s.lineFive n).1.isStable && decide ((s.lineFive n).2 = ⟨0, 5⟩)

theorem atRest_of_run {as : List SystemAction} {ns : List NodeId}
    (h : (system 8 1 fun _ => [1]).run as (start 1 fun _ => [1]) = some s)
    (hns : ∀ n, n ∈ ns ∨ ∀ a ∈ as, a.node? ≠ some n) (hs : s.restsFor ns) : s.AtRest ⟨0, 5⟩ := by
  obtain ⟨hstill, hlines⟩ := Bool.and_eq_true_iff.mp hs
  refine atRest_of_still hstill fun n => ?_
  rcases hns n with hn | hn
  · obtain ⟨hst, ha⟩ := Bool.and_eq_true_iff.mp (List.all_eq_true.mp hlines n hn)
    replace ha := of_decide_eq_true ha
    have hclass : ∀ st : CacheStatus, st.isStable = true → st ≠ .preserved ∧
        st.isTransient = false := by decide
    obtain ⟨hne, htr⟩ := hclass _ hst
    exact idle_of_line (.of_run (.init (start_init 1 fun _ => [1])) h) ha hne htr
  · intro r _
    rw [run_hosts hn h]
    rfl

/-- Node 1 has read a block, and the directory counts it. -/
theorem line_backed_read : ∃ s : System, s.Permits 1 ⟨0, 5⟩ false ∧
    (s.fabric.Counts 1 ⟨0, 5⟩ ∨ s.Pending (·.revokes) 1 ⟨0, 5⟩) := by
  obtain ⟨s, hr, hv⟩ := TransitionSystem.exists_reachable (T := system 8 1 fun _ => [1])
    (f := fun s => ((s.hosts 1).status ⟨false, 63045, 7⟩, (s.hosts 1).address ⟨false, 63045, 7⟩))
    (v := (.shared, ⟨0, 5⟩)) (reads 1) (start_init 1 fun _ => [1]) (by decide +kernel)
  obtain ⟨hst, ha⟩ := Prod.mk.inj hv
  have hread : s.Permits 1 ⟨0, 5⟩ false := ⟨_, by rw [hst]; rfl, ha⟩
  have hidle := idle_of_line hr ha (by rw [hst]; rintro ⟨⟩) (by rw [hst]; rfl)
  exact ⟨s, hread, (line_backed hr hidle).1.mp hread⟩

/-! ## The bitmap -/

/-- Of a block at rest only the entry is left to be counted. -/
theorem AtRest.value_eq (hb : s.AtRest b) (L : Ledger b) :
    L.value s.fabric = L.entry (s.fabric.dir b) (s.fabric.txnOf b) := by
  have hfl : Total.total L.flight s.fabric.flights = 0 :=
    Total.total_eq_zero fun f hf => L.flight_local f (hb.flights f hf)
  have hcc : ∑ k, L.cc (s.fabric.ccRegs k) = 0 :=
    Finset.sum_eq_zero fun k _ => L.cc_local _ fun hc => hb.ccRegs k hc.1 hc.2
  have hdir : L.dir (s.fabric.dirRegs b.nodeID) = 0 :=
    L.dir_local _ fun hc => hb.dirRegs hc.1 hc.2
  rw [Ledger.value, hfl, hcc, hdir, Nat.zero_add]

/-- No agent has an order about it. -/
theorem AtRest.held_eq (hb : s.AtRest b) (hR : s.Refines p) {d : RawMessageType → Bool} :
    p.held d n b = 0 := by
  refine Finset.sum_eq_zero fun i _ => ?_
  have hhand := hR.hands n i
  cases hk : p.hands n i with
  | none => rfl
  | some k =>
      rw [hk] at hhand
      exact CtrlMsg.forAgent_local (hb.agents n i _ hhand.symm)

/-- Its entry is stable: a transaction that is pending waits for an acknowledgement. -/
theorem AtRest.stable (hb : s.AtRest b) (hinv : FabricInv s.fabric) :
    (s.fabric.dir b).state.isTransient = false := by
  by_contra ht
  have ht := Bool.eq_true_of_not_eq_false ht
  obtain ⟨T, hT, htracks⟩ := (hinv.consistent b).tracks ht
  obtain ⟨n, hn⟩ := htracks.missing
  have hpend := hinv.pending b n
  rw [if_pos (by rw [Fabric.missing, if_pos ht, hT]; exact hn)] at hpend
  have hfl : Total.total (Flight.owes b n) s.fabric.flights = 0 := by
    refine Total.total_eq_zero fun f hf => ?_
    rw [Flight.owes]
    split
    next => exact if_neg fun hc => hb.flights f hf hc.2.1
    next => rfl
  have hcc : (s.fabric.ccRegs n).owes b = 0 := if_neg fun hc => hb.ccRegs n hc.1 hc.2
  have hdir : (s.fabric.dirRegs b.nodeID).owes b n = 0 := if_neg fun hc => hb.dirRegs hc.1 hc.2.1
  rw [Fabric.pending, hfl, hcc, hdir] at hpend
  cases hpend

/-- When nothing is going on for a block, the bitmap of its entry is the set of the nodes that may
read it, and a node that may write it is the only one, and the entry says so. -/
theorem bitmap_exact (h : (system qNum apptNum ds).Reachable s) (hb : s.AtRest b) :
    (∀ n, n ∈ (s.fabric.dir b).bits ↔ s.Permits n b false) ∧
      ∀ n, s.Permits n b true → (s.fabric.dir b).state = .sDirty ∧ (s.fabric.dir b).bits = {n} := by
  obtain ⟨p, hp, hR⟩ := refines h
  have hinv := hR.fabric ▸ Protocol.fabricInv hp
  have hstable := hb.stable hinv
  have howned : (s.fabric.dir b).owned (s.fabric.txnOf b) = (s.fabric.dir b).bits :=
    DirDataE.owned_eq rfl fun he => by rw [he] at hstable; cases hstable
  refine ⟨fun n => ?_, fun n hn => ?_⟩
  · obtain ⟨hw, hf, -, hread, -⟩ := hR.idle hp (hb.threads n)
    have hright := Protocol.right_eq hp hw hf
    have howning : p.fabric.owning n b = Total.ind (n ∈ (s.fabric.dir b).bits) := by
      rw [hR.fabric, Fabric.owning, hb.value_eq]
      exact Total.ind_congr (by rw [howned])
    have howing : (Ledger.owing n b).value p.fabric = 0 := by
      rw [hR.fabric, hb.value_eq]
      rfl
    have hmeant : (Ledger.meant (·.revokes) n b).value p.fabric = 0 := by
      rw [hR.fabric, hb.value_eq]
      rfl
    rw [howning, howing, hmeant, hb.held_eq hR] at hright
    rw [← hread, hright]
    by_cases hn : n ∈ (s.fabric.dir b).bits
    · rw [Total.ind_of hn]
      exact iff_of_true hn rfl
    · rw [Total.ind_of_not hn]
      exact iff_of_false hn (by rintro ⟨⟩)
  · obtain ⟨st, u, hc, hst⟩ := hR.permits_iff.mp hn
    obtain rfl : st = .modified := by cases st <;> first | rfl | cases hst
    have hwrite := Protocol.write_of_modified hp hc
    have howning : p.fabric.writeOwning n b
        = Total.ind ((s.fabric.dir b).state = .sDirty ∧ n ∈ (s.fabric.dir b).bits) := by
      rw [hR.fabric, Fabric.writeOwning, hb.value_eq]
      rfl
    have hmeant : (Ledger.meant (·.takesWrite) n b).value p.fabric = 0 := by
      rw [hR.fabric, hb.value_eq]
      rfl
    rw [howning, hmeant, hb.held_eq hR] at hwrite
    by_cases hd : (s.fabric.dir b).state = .sDirty ∧ n ∈ (s.fabric.dir b).bits
    · obtain ⟨o, ho⟩ := Finset.card_eq_one.mp ((hinv.consistent b).dirty hd.1).1
      refine ⟨hd.1, ?_⟩
      rw [ho, Finset.mem_singleton] at hd
      rw [ho, hd.2]
    · rw [Total.ind_of_not hd] at hwrite
      cases hwrite

/-- Node 1 has read a block, and is the only one that may. -/
theorem bitmap_exact_read : ∃ s : System, s.Permits 1 ⟨0, 5⟩ false ∧
    ∀ n, n ∈ (s.fabric.dir ⟨0, 5⟩).bits ↔ s.Permits n ⟨0, 5⟩ false := by
  obtain ⟨s, hs, hv⟩ := Option.map_eq_some_iff.mp (show
    ((system 8 1 fun _ => [1]).run (reads 1) (start 1 fun _ => [1])).map
      (fun s => (s.lineFive 1, s.restsFor [1])) = some ((.shared, ⟨0, 5⟩), true)
    by decide +kernel)
  obtain ⟨hline, hrest⟩ := Prod.mk.inj hv
  obtain ⟨hst, ha⟩ := Prod.mk.inj hline
  exact ⟨s, ⟨_, by rw [hst]; rfl, ha⟩, (bitmap_exact (.of_run (.init (start_init 1 fun _ => [1])) hs)
    (atRest_of_run hs (by decide +kernel) hrest)).1⟩

/-! ## The writer -/

/-- No agent carries out a downgrade when the directory counts the node as the writer again, or an
order or an acknowledgement that takes the right away for good is on its way to it: when another
order, or the node's own eviction, has overtaken the downgrade. -/
def Timely (s : System) (a : SystemAction) : Prop :=
  ∀ n i m r, a = .host n (.agent i) → (s.hosts n).agents i = .loop m r → m.mtype.downgrades →
    ¬ s.fabric.CountsWriter n m.block ∧ ¬ s.Pending (·.revokesDirty) n m.block ∧
      s.fabric.releasingDirty n m.block = 0

/-- A timely run is described by a timely run of the protocol. -/
theorem refines_timely (h : (system qNum apptNum ds).ReachableWhen Timely s) :
    ∃ p, (protocol qNum).ReachableWhen Protocol.Timely p ∧ s.Refines p := by
  refine refinesWhen (fun p a ha n b hd => ?_) (fun s p n i hR hp hok hat m b hd => ?_) h
  · obtain ⟨i, k, rfl, -⟩ := hd
    cases ha
  · obtain ⟨j, k, he, hk, rfl, hdown⟩ := hd
    cases he
    obtain ⟨k', hk', hat⟩ := hat
    cases hk.symm.trans hk'
    rcases hat with ⟨r, hpc⟩ | habs
    · obtain ⟨hcount, hpend, hrel⟩ := hok n i k.msg r rfl hpc hdown
      rw [hR.pending hp] at hpend
      rw [Fabric.CountsWriter, ← hR.fabric] at hcount
      rw [← hR.fabric] at hrel
      rw [Protocol.writeStanding, hrel, Fabric.revokingDirty]
      omega
    · have hright := Protocol.rights hp n k.msg.block
      have hgrant := Protocol.granting_zero hp (n := n) (b := k.msg.block) fun o => by
        rw [habs]; rfl
      have hle := Protocol.writeStanding_le p n k.msg.block
      rw [hgrant, habs] at hright
      change 0 + 0 = _ + 0 at hright
      omega

/-- When nothing is going on for a block, its entry is `S_DIRTY` just if the one holder may write
it, provided that every downgrade so far was carried out in time. -/
theorem writer_exact (h : (system qNum apptNum ds).ReachableWhen Timely s) (hb : s.AtRest b)
    (n : NodeId) : (s.fabric.dir b).state = .sDirty ∧ n ∈ (s.fabric.dir b).bits
      ↔ s.Permits n b true := by
  obtain ⟨p, hp, hR⟩ := refines_timely h
  obtain ⟨hw, hf, -, -, hwrite⟩ := hR.idle hp.reachable (hb.threads n)
  have hge := Protocol.writes_ge hp n b hf
  have hle := Protocol.writes_le hp.reachable n b hf
  have howning : p.fabric.writeOwning n b
      = Total.ind ((s.fabric.dir b).state = .sDirty ∧ n ∈ (s.fabric.dir b).bits) := by
    rw [hR.fabric, Fabric.writeOwning, hb.value_eq]
    rfl
  have hheld := Protocol.writeHeld_eq p n b
  have hgrant : p.fabric.writeGranting n b = 0 := Protocol.asked_zero hp.reachable (by decide) hw
  have hmeant : ∀ d : RawMessageType → Bool, (Ledger.meant d n b).value p.fabric = 0 := fun d => by
    rw [hR.fabric, hb.value_eq]
    rfl
  have hrel : p.fabric.releasingDirty n b = 0 := Protocol.asked_zero hp.reachable (by decide) hw
  have hzero : ∀ d, p.held d n b = 0 := fun d => hb.held_eq hR
  rw [Protocol.writing, hgrant] at hge hle
  rw [hheld, Protocol.demoting, Fabric.downgrading, hmeant, hzero] at hle
  rw [Protocol.writeStanding, Fabric.revokingDirty, hmeant, hrel, hzero, howning] at hge hle
  rw [← hwrite]
  by_cases hd : (s.fabric.dir b).state = .sDirty ∧ n ∈ (s.fabric.dir b).bits
  · rw [Total.ind_of hd] at hge hle
    exact iff_of_true hd (by omega)
  · rw [Total.ind_of_not hd] at hge hle
    exact iff_of_false hd (by omega)

open HostAction (ofThread ofAgent)

open SystemAction (ofHost ofFabric)

/-- No agent is in the loop of a downgrade. -/
def calm (s : System) (a : SystemAction) : Bool :=
  match a with
  | .host n (.agent i) =>
      match (s.hosts n).agents i with
      | .loop m _ => !m.mtype.downgrades
      | _ => true
  | _ => true

theorem timely_of_calm (s : System) (a : SystemAction) (hc : s.calm a) : s.Timely a := by
  rintro n i m r rfl hpc hdown
  simp only [calm, hpc, hdown] at hc
  cases hc

/-- Node 1 has written a block, and may write it. -/
theorem writer_exact_write : ∃ s : System, (s.fabric.dir ⟨0, 5⟩).state = .sDirty ∧
    1 ∈ (s.fabric.dir ⟨0, 5⟩).bits ∧ s.Permits 1 ⟨0, 5⟩ true := by
  obtain ⟨s, hs, hv⟩ := Option.map_eq_some_iff.mp (show
    ((system 8 1 fun _ => [1]).runWhen calm (asksToWrite 1 ++ ofFabric [.dirTick 0, .ccTick 0] ++
      .receive 1 0 :: ofHost 1 (ofThread 0 7)) (start 1 fun _ => [1])).map
      (fun s => (((s.fabric.dir ⟨0, 5⟩).state, decide (1 ∈ (s.fabric.dir ⟨0, 5⟩).bits)),
        s.restsFor [1])) = some ((.sDirty, true), true)
    by decide +kernel)
  obtain ⟨hdir, hrest⟩ := Prod.mk.inj hv
  obtain ⟨hst, hbits⟩ := Prod.mk.inj hdir
  have hb := atRest_of_run (TransitionSystem.run_of_runWhen hs) (by decide +kernel) hrest
  refine ⟨s, hst, of_decide_eq_true hbits, ?_⟩
  exact (writer_exact (.of_runWhen timely_of_calm (.init (start_init 1 fun _ => [1])) hs) hb 1).mp
    ⟨hst, of_decide_eq_true hbits⟩

/-- Node 1 asks to write a block and is granted it, and node 2 reads it from node 1 before the answer
arrives.  The downgrade has been taken by an agent, which has found the line. -/
def earlyDowngrade : List SystemAction :=
  asksToWrite 1 ++ ofFabric [.dirTick 0, .ccTick 0] ++
    ofHost 2 (Host.insertLine 0 ⟨0, 5⟩) ++ asks 2 22 ++
    ofFabric [.dirTick 1, .ccTick 1, .ccCopy 1, .dirTick 3, .ccTick 2] ++
    .receive 2 0 :: ofHost 2 (ofThread 0 7) ++ .take 1 0 :: ofHost 1 (ofAgent 0 18)

/-- Then node 3 writes the block, and the invalidation is carried out first.  When the answer
arrives, node 1 finds its line flagged and gives it up. -/
def overtakenDowngrade : List SystemAction :=
  earlyDowngrade ++
    asksToWrite 3 ++ ofFabric [.dirTick 1, .dirCopy 0, .dirCopy 0, .dirCopy 0, .ccTick 1, .ccTick 1,
      .ccTick 1] ++
    .take 1 1 :: ofHost 1 (ofAgent 1 20) ++ .take 2 0 :: ofHost 2 (ofAgent 0 20) ++
    ofFabric [.dirTick 2, .dirTick 2, .ccTick 2] ++
    .receive 3 0 :: .receive 3 0 :: ofHost 3 (ofThread 0 7) ++
    .receive 1 0 :: ofHost 1 (ofThread 0 1)

/-- It writes the block again, and the downgrade hits its new line. -/
def staleDowngrade : List SystemAction :=
  overtakenDowngrade ++ asks 1 23 ++
    ofFabric [.dirTick 0, .ccTick 0, .ccCopy 3, .dirTick 2, .ccTick 1] ++
    .receive 1 0 :: ofHost 1 (ofThread 0 7 ++ ofAgent 0 2) ++ .take 3 0 :: ofHost 3 (ofAgent 0 20)

/-- So the entry says that node 1 may write the block, and nothing is going on that would change
this, but its line is `SHARED`. -/
theorem dirty_not_writable : ∃ s : System, (system 8 1 fun _ => [1]).Reachable s ∧
    s.AtRest ⟨0, 5⟩ ∧ (s.fabric.dir ⟨0, 5⟩).state = .sDirty ∧ 1 ∈ (s.fabric.dir ⟨0, 5⟩).bits ∧
      ¬ s.Permits 1 ⟨0, 5⟩ true := by
  obtain ⟨s, hs, hv⟩ := Option.map_eq_some_iff.mp (show
    ((system 8 1 fun _ => [1]).run staleDowngrade (start 1 fun _ => [1])).map
      (fun s => (((s.fabric.dir ⟨0, 5⟩).state, decide (1 ∈ (s.fabric.dir ⟨0, 5⟩).bits)),
        s.lineFive 1, s.restsFor [1, 2, 3])) = some ((.sDirty, true), (.shared, ⟨0, 5⟩), true)
    by decide +kernel)
  obtain ⟨hdir, hv⟩ := Prod.mk.inj hv
  obtain ⟨hst, hbits⟩ := Prod.mk.inj hdir
  obtain ⟨hline, hrest⟩ := Prod.mk.inj hv
  obtain ⟨hstatus, ha⟩ := Prod.mk.inj hline
  have hr : (system 8 1 fun _ => [1]).Reachable s := .of_run (.init (start_init 1 fun _ => [1])) hs
  refine ⟨s, hr, atRest_of_run hs (by decide +kernel) hrest, hst, of_decide_eq_true hbits, ?_⟩
  rintro ⟨r, hw, hb⟩
  have hreach := hosts_reachable hr 1
  obtain rfl := (Host.addressed hreach).unique (Host.tagged hreach) (fun hp => by rw [hp] at hw; cases hw)
    (by rw [hstatus]; rintro ⟨⟩) (hb.trans ha.symm)
  rw [hstatus] at hw
  cases hw

end System

end Ting
