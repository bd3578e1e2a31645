/-
# `Ting.System.Asserts` — no assertion fails

A thread that takes an answer for a line that it does not wait for gets into a default branch that
drops every message, or into an assertion.  That takes an eviction that its thread has lost.  As
long as no thread moves a line aside while it waits for an eviction, the line of every answer
belongs to the thread that takes it (`Host.Attended`), and the answer is one that the thread
handles.
-/
import Ting.Soft.Attended
import Ting.System.Refinement

namespace Ting

theorem evictSwitch_broken {k t : RawMessageType} (hk : k.isEvict) (hr : k.isReplyTo t) :
    (evictSwitch t).broken = false := by
  revert k t
  decide

/-- A thread that is at a request has not broken down. -/
theorem Pc.broken_of_job {pc : Pc} {x : LineRef × RawMessageType} (h : pc.job = some x) :
    pc.broken = false := by
  cases pc with
  | unlock k => cases k <;> first | rfl | cases h
  | swallow | fault => cases h
  | _ => rfl

/-- A thread that evicts a line owns its copy. -/
theorem Thread.Evicts.owns {t : Thread} {τ : ThreadId} {b : Block} {c : Copy} {r : LineRef}
    {p : EvictPhase} (h : t.Evicts τ b c) (hp : t.stake.cur = some (r, p))
    (hw : ∀ w, t.pc.waits = some w → t.waitCur = w) (hb : t.pc.broken = false) :
    c.owner = some τ := by
  refine h.owner.elim (·.1) fun hall => ?_
  -- otherwise it would follow a copy that is not there
  have habs := hall b .absent
  exfalso
  rw [Thread.stake] at hp
  cases hev : t.pc.evicts
  · have hwait : t.waitCur := by
      by_contra hno
      rw [Bool.not_eq_true] at hno
      rw [hno] at hp
      cases hpc : t.pc <;> rw [hpc] at hp hev
      case waitEvict =>
        have := hw true (by rw [hpc]; rfl)
        rw [hno] at this
        cases this
      all_goals first | (cases hp; done) | cases hev
    have hne : t.pc ≠ .swallow ∧ t.pc ≠ .fault := by
      constructor <;> intro hpc <;> rw [hpc] at hb <;> cases hb
    obtain ⟨q, hq, -⟩ := habs.outstanding hev hne.1 hne.2 hwait
    cases hq
  · unfold Evicts at habs
    cases hpc : t.pc <;> rw [hpc] at hev hp habs
    case evictTry => exact habs.elim fun _ he => by cases he
    case evictDiscard | evictDrop =>
      rcases habs with he | ⟨-, q, he, -⟩ <;> cases he
    case evictLock | evictSend => exact habs.elim fun _ he => by cases he.1
    case evictRestore | evictSpin => exact habs.2.elim fun _ he => by cases he.1
    case evictEnd => cases hp
    all_goals cases hev

namespace Host

variable {h h' : Host} {c : Block → Copy} {τ : ThreadId} {r : LineRef}

/-- The line of a claimed copy belongs to the thread that has claimed it. -/
theorem Tracks.attends {apptNum : ℕ} {ds : List Addr} (hr : (host apptNum ds).Reachable h)
    (hk : h.Tracks c) (ha : h.Attended) (hok : ∀ τ, (h.threads τ).pc.broken = false) {b : Block}
    {q : Claim} (hq : c b = .claimed q) (hreq : q.kind.isRequest) :
    ∃ r, h.address r = b ∧ h.status r ≠ .preserved ∧
      ((∃ k, (h.threads q.thread).pc.job = some (r, k)) ∨
        ∃ p, (h.threads q.thread).stake.cur = some (r, p)) := by
  obtain ⟨r, hne, rfl⟩ := hk.found b (by rw [hq]; rintro ⟨⟩)
  have hat := hk.line r hne
  rw [hq] at hat
  have hst : h.status r = q.status := hat.2.1
  have htr : (h.status r).isTransient := by
    rw [hst]
    exact Claim.status_isTransient hreq
  refine ⟨r, rfl, hne, ?_⟩
  obtain ⟨σ, hσ⟩ := ha r htr
  rcases (owned hr).busy htr hσ with ⟨s, hs⟩ | ⟨p, -, hp⟩
  · rw [Thread.stake, Pc.claim_eq] at hs
    obtain ⟨⟨r', k⟩, hjob, he⟩ := Option.map_eq_some_iff.mp hs
    cases he
    obtain ⟨haddr, -, q', hq', hτ, -⟩ := (hk.thread σ).job _ k hjob
    rw [← haddr, hq] at hq'
    cases hq'
    exact .inl ⟨k, hτ ▸ hjob⟩
  · have hcur : (h.threads σ).cur = r := by
      rw [Thread.stake] at hp
      obtain ⟨p', -, he⟩ := Option.map_eq_some_iff.mp hp
      cases he
      rfl
    have hev := (hk.thread σ).cur
    rw [hcur, hq] at hev
    have hτ : some q.thread = some σ := hev.owns hp (waitsWell hr σ) (hok σ)
    cases hτ
    exact .inr ⟨p, hp⟩

/-! ## Steps of a node -/

/-- A thread that has looked through the set has not found its block twice. -/
theorem Tagged.looked (ht : h.Tagged) {line shadow : Option Slot} {todo : List Slot}
    (hpc : (h.threads τ).pc = .findShadow line todo)
    (hf : Found h true (h.threads τ).set (h.threads τ).tag todo shadow) :
    (h.afterLookup (h.threads τ) line shadow).broken = false := by
  rcases afterLookup_cases h (h.threads τ) line shadow with
    ⟨k, hk, rfl | rfl | ⟨rfl, s, s', rfl, rfl⟩ | ⟨s, -, rfl⟩⟩ | ⟨s, -, -, hk⟩
  · rw [hk]; rfl
  · rw [hk]; rfl
  · cases hf with
    | some hs =>
        exact (ht.not_both (ht.found τ ⟨false, (h.threads τ).set, s⟩ (by rw [hpc]; rfl)) hs).elim
  · rw [hk]; rfl
  · rw [hk]; rfl

/-- Nor has an agent. -/
theorem Tagged.agentLooked (ht : h.Tagged) {i : AgentId} {m : CtrlMsg} {line shadow : Option Slot}
    {todo : List Slot} (hpc : h.agents i = .findShadow m line todo)
    (hf : Found h true (calLineSet m.clineTag) m.clineTag todo shadow) :
    afterFind m line shadow ≠ .fault := by
  cases line with
  | none => cases shadow <;> rintro ⟨⟩
  | some s =>
      cases hf with
      | none => rintro ⟨⟩
      | some hs =>
          have hc := ht.agent i ⟨false, calLineSet m.clineTag, s⟩ (by rw [hpc]; rfl)
          rw [hpc] at hc
          exact (ht.not_both hc hs).elim

/-- A thread breaks down over a message only. -/
theorem Stepped.unbroken {a : HostAction} (hs : Stepped h a h') (ht : h.Tagged)
    (hok : ∀ τ, (h.threads τ).pc.broken = false)
    (hreply : ∀ τ m r k d g, a = .receive τ m → (h.threads τ).pc = .await r k d g →
      ((h.threads τ).onReply r k d g (h.lines (h.threads τ).cur).tag m).pc.broken = false)
    (hevict : ∀ τ m x, (h.threads τ).pc = .waitEvict →
      a = .receive τ m ∧ (h.threads τ).stash = none ∨ (h.threads τ).stash = some m →
      (({ h.threads τ with stash := x } : Thread).onEvictReply
        (h.lines (h.threads τ).cur).tag m).pc.broken = false) (σ : ThreadId) :
    (h'.threads σ).pc.broken = false := by
  have hup : ∀ {τ : ThreadId} {t' : Thread}, h'.threads = Function.update h.threads τ t' →
      t'.pc.broken = false → (h'.threads σ).pc.broken = false := by
    intro τ t' hth ht'
    rw [hth]
    rcases eq_or_ne σ τ with rfl | hne
    · rwa [Function.update_self]
    · rw [Function.update_of_ne hne]
      exact hok σ
  have hloop : ∀ t : Thread, t.loop.broken = false := fun t => by
    rcases loop_cases (t := t) with hl | hl <;> rw [hl] <;> rfl
  cases hs with
  | call | evictDrop | evictSend | finish =>
      refine hup rfl ?_
      dsimp only
      repeat' split
      all_goals rfl
  | looked hpc hf => exact hup rfl (ht.looked hpc hf)
  | casFail hpc =>
      rcases hpc with ⟨-, ⟨rfl, -⟩ | rfl⟩ | ⟨-, rfl⟩ <;> exact hup rfl rfl
  | @unlock τ k hpc =>
      have hold := hok τ
      rw [hpc] at hold
      cases k <;> first | exact hup rfl rfl | cases hold
  | scan =>
      refine hup rfl ?_
      obtain ⟨_, _, _, hpc', -⟩ := scanSlot_cases h (h.threads _) _ _ _ _ _
      rw [hpc']
      rfl
  | insert hpc hi =>
      obtain ⟨new, t', hth, hpc', -⟩ := hi.thread
      exact hup hth (by rw [hpc']; rfl)
  | reply hpc => exact hup rfl (hreply _ _ _ _ _ _ rfl hpc)
  | bodyEnd =>
      refine hup rfl ?_
      dsimp only
      split
      · rfl
      · exact hloop _
  | unstash hpc hm => exact hup rfl (hevict _ _ none hpc (.inr hm))
  | evictReply hpc hm => exact hup rfl (hevict _ _ (h.threads _).stash hpc (.inl ⟨rfl, hm⟩))
  | evictEnd => exact hup rfl (hloop _)
  | swallow | take | agentLock | agentSkip | agentFound | agentShadowSkip | agentLooked | agentObey
  | agentFault | agentUnlock => exact hok σ
  | _ => exact hup rfl rfl

/-- An agent breaks down over a message that is no order only. -/
theorem Stepped.agents_unbroken {a : HostAction} (hs : Stepped h a h') (ht : h.Tagged)
    (hok : ∀ i, h.agents i ≠ .fault)
    (hord : ∀ i m, (h.agents i).order = some m → m.mtype.isOrder) (j : AgentId) :
    h'.agents j ≠ .fault := by
  by_cases hj : a.agent? = some j
  · have hself : ∀ {k : Host} {q : AgentPc}, h'.agents = (k.setAgent j q).agents → q ≠ .fault →
        h'.agents j ≠ .fault := by
      intro k q he hq
      rw [he, setAgent_agents, Function.update_self]
      exact hq
    cases hs with
    | agentLooked hpc hf =>
        cases hj
        exact hself rfl (ht.agentLooked hpc hf)
    | agentFault hpc ho =>
        have := hord _ _ (by rw [hpc]; rfl)
        rw [ho] at this
        cases this
    | take | agentLock | agentSkip | agentFound | agentShadowSkip | agentObey | agentUnlock =>
        cases hj
        exact hself rfl (by rintro ⟨⟩)
    | _ => cases hj
  · rw [hs.agents_other fun k hk he => hj (hk.trans (congrArg some he))]
    exact hok j

/-! ## Answers -/

section Answers

variable {apptNum : ℕ} {ds : List Addr} {q : Claim}

/-- `wait_evict` handles every answer to a request of its thread. -/
theorem Tracks.handles_evict (hr : (host apptNum ds).Reachable h) (hk : h.Tracks c)
    (ha : h.Attended) (hok : ∀ τ, (h.threads τ).pc.broken = false) {b : Block} {m : CtrlMsg}
    (hq : c b = .claimed q) (hτ : q.thread = τ) (hreq : q.kind.isRequest)
    (hreply : q.kind.isReplyTo m.mtype) (htag : m.clineTag = b.getTag)
    (hpc : (h.threads τ).pc = .waitEvict) (x : Option CtrlMsg) :
    (({ h.threads τ with stash := x } : Thread).onEvictReply
      (h.lines (h.threads τ).cur).tag m).pc.broken = false := by
  obtain ⟨r, rfl, hne, ⟨kind, hjob⟩ | ⟨p, hp⟩⟩ := hk.attends hr ha hok hq hreq
  · rw [hτ, hpc] at hjob
    cases hjob
  · rw [hτ, Thread.stake, hpc] at hp
    cases hp
    have hwait := waitsWell hr τ true (by rw [hpc]; rfl)
    obtain ⟨q', hq', -, hkind, -⟩ := (hk.thread τ).cur.outstanding (by rw [hpc]; rfl)
      (by rw [hpc]; rintro ⟨⟩) (by rw [hpc]; rintro ⟨⟩) hwait
    rw [hq] at hq'
    cases hq'
    change (if m.clineTag = (h.lines (h.threads τ).cur).tag then evictSwitch m.mtype
      else .fault).broken = false
    rw [if_pos (htag.trans (addressed hr _ hne).symm)]
    exact evictSwitch_broken (by rw [hkind]; exact EvictType.request_isEvict _) hreply

/-- `readMiss`, `writeMiss` and `writeShared` handle every answer to a request of their thread. -/
theorem Tracks.handles_reply {k : Packet} {hasData granted : Bool}
    (hr : (host apptNum ds).Reachable h) (hk : h.Tracks c) (ha : h.Attended)
    (hok : ∀ τ, (h.threads τ).pc.broken = false) (hq : c k.msg.block = .claimed q)
    (hτ : q.thread = τ) (hreq : q.kind.isRequest)
    (hw : q.await = .waiting k.origin hasData granted) (hreply : q.kind.isReplyTo k.msg.mtype)
    (htag : k.msg.clineTag = k.msg.block.getTag) (hsd : k.msg.mtype.isShareddata → hasData = false)
    (hout : k.msg.mtype.isOutcome → granted = false ∧ (k.msg.mtype.isMissAggack = false →
      hasData = false)) {kind : RawMessageType} {d g : Bool}
    (hpc : (h.threads τ).pc = .await r kind d g) :
    ((h.threads τ).onReply r kind d g (h.lines (h.threads τ).cur).tag k.msg).pc.broken
      = false := by
  have hjob : (h.threads τ).pc.job = some (r, kind) := by rw [hpc]; rfl
  obtain ⟨haddr, hevict, q', hq', -, hkind, hasks⟩ := (hk.thread τ).job r kind hjob
  unfold Thread.onReply
  split
  next heq =>
    have hb : k.msg.block = (h.threads τ).addr := Block.getTag_inj (htag.symm.trans heq)
    rw [← hb, hq] at hq'
    cases hq'
    rw [hpc] at hasks
    obtain ⟨o, ho⟩ := hasks
    cases hw.symm.trans ho
    subst hkind
    exact Pc.broken_of_job (replySwitch_asks (r := r) (o := k.origin) hevict hreply hsd hout).1
  next hne =>
    split
    next => rw [hpc]; rfl
    next hno =>
      -- then it is not the block of this thread, but it is one that the thread waits for
      exfalso
      obtain ⟨r', hb, hfull, ⟨kind', hjob'⟩ | ⟨p, hp⟩⟩ := hk.attends hr ha hok hq hreq
      · rw [hτ, hjob] at hjob'
        cases hjob'
        exact hne (by rw [htag, ← hb, haddr]; rfl)
      · rw [hτ, Thread.stake, hpc] at hp
        obtain ⟨p', hph, he⟩ := Option.map_eq_some_iff.mp hp
        cases he
        refine hno ⟨?_, by rw [htag, ← hb]; exact (addressed hr _ hfull).symm⟩
        by_contra hwait
        change (if (h.threads τ).waitCur then some EvictPhase.waiting else none) = some p at hph
        rw [if_neg hwait] at hph
        cases hph

end Answers

end Host

namespace System

variable {qNum apptNum : ℕ} {ds : NodeId → List Addr} {s s' : System} {p : Protocol}
  {a : SystemAction} {n : NodeId} {τ : ThreadId}

/-- No thread moves a line aside while it waits for an eviction. -/
def OneAtATime (s : System) (a : SystemAction) : Prop :=
  ∀ n x, a = .host n x → (s.hosts n).Finished x

/-- What is so of every node as long as evictions are waited for. -/
structure Sound (h : Host) : Prop where
  oneEviction : h.OneEviction
  attended : h.Attended
  threads : ∀ τ, (h.threads τ).pc.broken = false
  agents : ∀ i, h.agents i ≠ .fault

/-- A step that leaves the threads of a node and its agents their messages. -/
theorem Sound.step {h h' : Host} {x : HostAction} {b : NodeId} (hsound : Sound h)
    (hr : (host apptNum (ds b)).Reachable h) (hs : Host.Stepped h x h') (hok : h.Finished x)
    (hreply : ∀ τ m r k d g, x = .receive τ m → (h.threads τ).pc = .await r k d g →
      ((h.threads τ).onReply r k d g (h.lines (h.threads τ).cur).tag m).pc.broken = false)
    (hevict : ∀ τ m y, (h.threads τ).pc = .waitEvict →
      x = .receive τ m ∧ (h.threads τ).stash = none ∨ (h.threads τ).stash = some m →
      (({ h.threads τ with stash := y } : Thread).onEvictReply
        (h.lines (h.threads τ).cur).tag m).pc.broken = false)
    (hord : ∀ i m, (h.agents i).order = some m → m.mtype.isOrder) : Sound h' := by
  have hthreads := hs.unbroken (Host.tagged hr) hsound.threads hreply hevict
  exact ⟨hsound.oneEviction.step hs hok, hsound.attended.step hsound.oneEviction (Host.owned hr)
    (Host.waitsWell hr) hs hthreads, hthreads,
    hs.agents_unbroken (Host.tagged hr) hsound.agents hord⟩

/-- One step keeps it at all nodes. -/
theorem sound_step (h : (system qNum apptNum ds).Reachable s) (hsound : ∀ n, Sound (s.hosts n))
    (hok : s.OneAtATime a) (hs : Stepped qNum s a s') (m : NodeId) : Sound (s'.hosts m) := by
  obtain ⟨p, hp, hR⟩ := refines h
  have hreach := hosts_reachable h
  have hset : ∀ {n : NodeId} {k : Host}, s'.hosts = (s.setHost n k).hosts → Sound k →
      Sound (s'.hosts m) := by
    intro n k hh hk
    rw [hh, setHost_hosts]
    split
    · exact hk
    · exact hsound m
  have hord : ∀ n i m, ((s.hosts n).agents i).order = some m → m.mtype.isOrder := by
    intro n i m hm
    have hhand := hR.hands n i
    rw [hm] at hhand
    obtain ⟨k, hk, rfl⟩ := Option.map_eq_some_iff.mp hhand
    exact (Protocol.hands_order hp hk).1
  -- what a thread has put aside is the answer to its eviction
  have hstash : ∀ n τ m y, ((s.hosts n).threads τ).pc = .waitEvict →
      ((s.hosts n).threads τ).stash = some m →
      (({ (s.hosts n).threads τ with stash := y } : Thread).onEvictReply
        ((s.hosts n).lines ((s.hosts n).threads τ).cur).tag m).pc.broken = false := by
    intro n τ m y hpc hm
    obtain ⟨b, q, htag, hq, hτ, -, hw⟩ := ((hR.copies n).thread τ).stash m hm
    have hasked := Protocol.asked hp n b
    rw [hq] at hasked
    have hreplied := Protocol.replied hp n b
    rw [hq] at hreplied
    exact (hR.copies n).handles_evict (hreach n) (hsound n).attended (hsound n).threads hq hτ
      hasked.isRequest (hreplied _ hw).1 htag hpc y
  -- a step without a message for a thread
  have hquiet : ∀ {n : NodeId} {x : HostAction} {k : Host}, Host.Stepped (s.hosts n) x k →
      (s.hosts n).Finished x → (∀ τ m, x ≠ .receive τ m) → Sound k := by
    intro n x k hs hfin hx
    refine (hsound n).step (hreach n) hs hfin (fun τ m _ _ _ _ he => (hx τ m he).elim)
      (fun τ m y hpc he => ?_) (hord n)
    exact hstash n τ m y hpc (he.resolve_left fun h => hx τ m h.1)
  cases hs with
  | internal => exact hsound m
  | host hl hs =>
      refine hset rfl (hquiet hs (hok _ _ rfl) fun τ m he => ?_)
      rw [he] at hl
      cases hl
  | send hm hs =>
      exact hset rfl (hquiet hs (by rintro _ _ ⟨⟩) (by rintro _ _ ⟨⟩))
  | take hi hf hs =>
      exact hset rfl (hquiet hs (by rintro _ _ ⟨⟩) (by rintro _ _ ⟨⟩))
  | @receive n τ i k h' hi hf hs =>
      have hmem : ⟨.app n τ, k⟩ ∈ p.fabric.flights := by
        rw [hR.fabric]
        exact List.mem_of_getElem? hf
      obtain ⟨q, hasData, granted, hq, hτ, hw, -, -, hreply, htag, hsd, hout⟩ :=
        Protocol.receives hp hmem
      have hasked := Protocol.asked hp n k.msg.block
      rw [hq] at hasked
      refine hset rfl ((hsound n).step (hreach n) hs (by rintro _ _ ⟨⟩) (fun σ m r kind d g he hpc => ?_)
        (fun σ m y hpc he => ?_) (hord n))
      · cases he
        exact (hR.copies n).handles_reply (hreach n) (hsound n).attended (hsound n).threads hq hτ
          hasked.isRequest hw hreply (of_decide_eq_true htag) hsd hout hpc
      · rcases he with ⟨he, -⟩ | he
        · cases he
          exact (hR.copies n).handles_evict (hreach n) (hsound n).attended (hsound n).threads hq hτ
            hasked.isRequest hreply (of_decide_eq_true htag) hpc y
        · exact hstash n σ m y hpc he

theorem sound (h : (system qNum apptNum ds).ReachableWhen OneAtATime s) (n : NodeId) :
    Sound (s.hosts n) := by
  revert n
  refine invariantWhen (P := fun s => ∀ n, Sound (s.hosts n)) (fun s hi n => ?_)
    (fun s a s' hr hok hsound hs => sound_step hr.reachable hsound hok hs) h
  have hh := hi.hosts n
  refine ⟨fun τ hn => ?_, fun r hr => ?_, fun τ => ?_, fun i => ?_⟩
  · rw [hh.startNext τ] at hn
    cases hn
  · rw [show (s.hosts n).status r = .preserved from hh.status r] at hr
    cases hr
  · rw [hh.pc τ]
    rfl
  · rw [hh.agents i]
    rintro ⟨⟩

open HostAction (ofThread)

open SystemAction (ofHost ofFabric)

/-- The guard as a check that a run can evaluate. -/
def noEviction (s : System) : SystemAction → Bool
  | .host n (.insert τ _) => !((s.hosts n).threads τ).waitCur
  | _ => true

theorem oneAtATime_of_noEviction (s : System) (a : SystemAction) (hc : s.noEviction a) :
    s.OneAtATime a := by
  rintro n x rfl τ ptr rfl -
  exact (Bool.not_eq_true' _).mp hc

/-- Thread `τ` of node 1 reads block `b`, which it finds in round `k` of its lookup. -/
def misses (τ : ThreadId) (b : Block) (k : ℕ) : List SystemAction :=
  ofHost 1 (ofThread τ (14 + k)) ++ .send 1 τ (.about .initDir b) ::
    ofFabric [.dirTick 0, .ccTick 0] ++ .receive 1 τ :: ofHost 1 (ofThread τ 7)

/-- Thread 0 begins to evict block 5 and has a hit on block 542497, which thread 1 has read for it;
the answer to the eviction is on its way when its next miss, on block 542943, moves the line of
block 507 aside. -/
def losesEviction : List SystemAction :=
  ofHost 1 (Host.insertLine 1 ⟨0, 5⟩) ++ misses 1 ⟨0, 5⟩ 8 ++
    ofHost 1 (Host.insertLine 1 ⟨0, 507⟩) ++ misses 1 ⟨0, 507⟩ 7 ++
    ofHost 1 (Host.insertLine 2 ⟨0, 271896⟩ ++ Host.insertLine 3 ⟨0, 272360⟩ ++
      Host.insertLine 4 ⟨0, 273518⟩ ++ Host.insertLine 5 ⟨0, 274322⟩ ++
      Host.insertLine 6 ⟨0, 488351⟩ ++ Host.insertLine 7 ⟨0, 488545⟩ ++
      Host.insertLine 0 ⟨0, 542497⟩ ++ ofThread 0 1) ++
    .host 1 (.call 1 false false ⟨0, 542497⟩) :: misses 1 ⟨0, 542497⟩ 7 ++ ofHost 1 (ofThread 0 3) ++
    .send 1 0 (.about .initDir ⟨0, 5⟩) :: ofHost 1 (ofThread 0 26) ++
    ofFabric [.dirTick 0, .ccTick 0] ++ ofHost 1 (Host.insertLine 0 ⟨0, 542943⟩ ++ ofThread 0 4)

/-- The thread evicts block 507, too, and asks for block 542943.  The answer to its first eviction
is about neither, so it goes on receiving for ever. -/
theorem eviction_answer_dropped : ∃ s : System,
    (system 8 8 fun _ => [1, 2, 3, 4, 5, 6, 7, 8, 9, 10, 11, 12, 13, 14, 15, 16]).Reachable s ∧
      ((s.hosts 1).threads 0).pc = .swallow :=
  TransitionSystem.exists_reachable
    (T := system 8 8 fun _ => [1, 2, 3, 4, 5, 6, 7, 8, 9, 10, 11, 12, 13, 14, 15, 16])
    (f := fun s => ((s.hosts 1).threads 0).pc) (v := .swallow)
    (losesEviction ++ .send 1 0 (.about .initDir ⟨0, 507⟩) :: ofHost 1 (ofThread 0 19) ++
      [.send 1 0 (.about .initDir ⟨0, 542943⟩), .receive 1 0])
    (start_init 8 fun _ => [1, 2, 3, 4, 5, 6, 7, 8, 9, 10, 11, 12, 13, 14, 15, 16])
    (by decide +kernel)

end System

end Ting
