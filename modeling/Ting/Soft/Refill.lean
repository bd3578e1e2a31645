/-
# `Ting.Soft.Refill` — the first allocation from a new chunk

When what is left of its chunk is too small, a thread gets another one and tries again, and asserts
that this is enough.  A chunk is as large as the largest request, but it need not begin at the start
of a line: the part of an agent begins at a multiple of what each agent has, and that is the memory
of the node divided by the number of agents.  An aligned request then finds only the rest of the
chunk behind the next start of a line.

The first chunk of the first agent of node 0 begins at address 0, which is what `Null` stands for.
-/
import Ting.Soft.Chunks

namespace Ting

/-! ## The second try -/

/-- The bytes up to the next start of a line from where the part of agent `k` begins. -/
def DSMConfig.padding (c : DSMConfig) (k : AgentId) (align : Bool) : ℕ :=
  if align then (lineSize - c.gmemSizePerSyst * k % lineSize) % lineSize else 0

section Refill

variable {c : DSMConfig} {k : AgentId} {a : LocalAllocator} {size : ℕ} {align : Bool}

theorem DSMConfig.padding_lt : c.padding k align < lineSize := by
  unfold padding
  split
  · exact Nat.mod_lt _ (by decide)
  · decide

/-- Every chunk of an agent begins as far from the start of a line as its part. -/
theorem LocalAllocator.alignCur_setChunck (d : NodeId) (n : ℕ)
    (h : c.gmemSizePerSyst * k + n * kChunkSize + lineSize < 2 ^ 64) :
    (a.setChunck ⟨c.gmemSizePerSyst * k + n * kChunkSize, d⟩).alignCur align =
      { a.setChunck ⟨c.gmemSizePerSyst * k + n * kChunkSize, d⟩ with
        cur := ⟨c.gmemSizePerSyst * k + n * kChunkSize + c.padding k align, d⟩ } := by
  have hmod : (c.gmemSizePerSyst * k + n * kChunkSize) % lineSize =
      c.gmemSizePerSyst * k % lineSize := by
    rw [show n * kChunkSize = n * 8192 * lineSize by simp only [kChunkSize, mb, lineSize]; omega,
      Nat.add_mul_mod_self_right]
  unfold alignCur
  split
  next hc =>
    have hpad : c.padding k align = lineSize -
        (c.gmemSizePerSyst * k + n * kChunkSize) % lineSize := by
      have hne : (c.gmemSizePerSyst * k + n * kChunkSize) % lineSize ≠ 0 := hc.2
      rw [hmod] at hne ⊢
      rw [DSMConfig.padding, if_pos hc.1]
      exact Nat.mod_eq_of_lt (by simp only [lineSize] at *; omega)
    have hadd : ((c.gmemSizePerSyst * k + n * kChunkSize) / lineSize + 1) * lineSize % 2 ^ 64 =
        c.gmemSizePerSyst * k + n * kChunkSize + c.padding k align := by
      rw [hpad]
      simp only [lineSize] at h ⊢
      omega
    simp only [setChunck] at hadd ⊢
    rw [hadd]
  next hc =>
    have hpad : c.padding k align = 0 := by
      unfold DSMConfig.padding
      split
      next ha =>
        have hzero : (c.gmemSizePerSyst * k + n * kChunkSize) % lineSize = 0 := by
          by_contra hne
          exact hc ⟨ha, hne⟩
        rw [← hmod, hzero, Nat.sub_zero, Nat.mod_self]
      next => rfl
    rw [hpad, Nat.add_zero]
    rfl

/-- The second try with a chunk of agent `k`. -/
theorem LocalAllocator.malloc_setChunck (d : NodeId) {n : ℕ}
    (hchunk : c.gmemSizePerSyst * k + n * kChunkSize + kChunkSize + mb ≤ 2 ^ 64)
    (hsize : size ≤ kChunkSize) :
    (∃ a' res, (a.setChunck ⟨c.gmemSizePerSyst * k + n * kChunkSize, d⟩).malloc size align =
        some (a', res, false)) ↔
      c.padding k align + size ≤ kChunkSize ∧
        c.gmemSizePerSyst * k + n * kChunkSize + c.padding k align + size ≤ 40 * gb := by
  have hpad : c.padding k align < lineSize := DSMConfig.padding_lt
  have hroom : c.gmemSizePerSyst * k + n * kChunkSize + lineSize < 2 ^ 64 := by
    simp only [kChunkSize, mb, lineSize] at *
    omega
  have hstop : (c.gmemSizePerSyst * k + n * kChunkSize + c.padding k align + size) % 2 ^ 64 =
      c.gmemSizePerSyst * k + n * kChunkSize + c.padding k align + size := by
    refine Nat.mod_eq_of_lt ?_
    simp only [kChunkSize, mb, lineSize] at *
    omega
  have hend : (c.gmemSizePerSyst * k + n * kChunkSize + kChunkSize) % 2 ^ 64 =
      c.gmemSizePerSyst * k + n * kChunkSize + kChunkSize := by
    refine Nat.mod_eq_of_lt ?_
    simp only [kChunkSize, mb] at *
    omega
  rw [malloc, alignCur_setChunck d n hroom]
  simp only [setChunck, hstop, hend, List.append_eq_nil_iff, reduceCtorEq, and_false, false_or]
  split
  next hgb =>
    split
    next hmore =>
      refine iff_of_false (by rintro ⟨_, _, ⟨⟩⟩) fun h => ?_
      omega
    next hfit => exact iff_of_true ⟨_, _, rfl⟩ ⟨by omega, hgb⟩
  next hgb => exact iff_of_false (by rintro ⟨_, _, ⟨⟩⟩) fun h => hgb h.2

/-- What is returned is where `cur` is, brought to the start of a line. -/
theorem LocalAllocator.malloc_res {a' : LocalAllocator} {need : Bool} {res : GlobalAddress}
    (hm : a.malloc size align = some (a', res, need)) : res = (a.alignCur align).cur := by
  simp only [malloc, Option.ite_none_right_eq_some] at hm
  obtain ⟨-, hm⟩ := hm
  split at hm <;> cases hm <;> rfl

/-- A thread asks for its first chunk. -/
theorem LocalAllocator.malloc_new (hsize : size ≤ kChunkSize) (align : Bool) :
    LocalAllocator.new.malloc size align = some (.new, ⟨0, 0⟩, true) := by
  have hstop : (0 + size) % 2 ^ 64 = size := by
    rw [Nat.zero_add]
    exact Nat.mod_eq_of_lt (Nat.lt_of_le_of_lt hsize (by decide))
  have hgb : size ≤ 40 * gb := hsize.trans (by decide)
  have halign : LocalAllocator.new.alignCur align = .new := by
    rw [alignCur, if_neg fun h => h.2 rfl]
  rw [malloc, halign]
  simp only [new, hstop, if_pos hgb, true_or, if_true]

/-- Whatever the state of a thread's allocator: with a chunk that agent `k` gives away, the request
succeeds just when it fits behind the next start of a line, within 40 GB. -/
theorem one_refill {uNodeNum uAppt uSyst : BitVec 32} {uGmem uCache : BitVec 64}
    (hc : DSMConfig.new uNodeNum uAppt uSyst uGmem uCache = some c)
    {s : AllocState} (hr : (allocation c).Reachable s) (hk : k.val < c.systs) {d : NodeId}
    {g : GlobalAllocator} {addr : ℕ} (hg : (s.chunckAlloc d k).allocChunck = some (g, some addr))
    (hsize : 1 ≤ size ∧ size ≤ kChunkSize) (a : LocalAllocator) (align : Bool) :
    (∃ a' res, (a.setChunck ⟨addr, d⟩).malloc size align = some (a', res, false)) ↔
      c.padding k align + size ≤ kChunkSize ∧ addr + c.padding k align + size ≤ 40 * gb := by
  have hroom := DSMConfig.gmem_room hc
  have hinv : AllocInv c s := .of_reachable hroom hr
  obtain ⟨-, ⟨hnone, -⟩ | ⟨hrange, -, haddr⟩⟩ := (hinv.carves d k hk).alloc hk d 0 0 hg
  · cases hnone
  · obtain rfl := Option.some.inj haddr
    have hend := hrange.end_le_gmem
    exact LocalAllocator.malloc_setChunck d (by rw [Given.addr] at hend; omega) hsize.2

/-- A whole chunk of the second of two agents, whose part begins at the start of a line. -/
theorem one_refill_pair : ∃ a res, (LocalAllocator.new.setChunck ⟨105381888, 0⟩).malloc kChunkSize
    true = some (a, res, false) :=
  (one_refill pairConfig_accepted
    (.init (AllocState.initial_init pairConfig 0 (by decide))) (k := 1) (by decide) (d := 0)
    (by exact (rfl : _ = some (_, some 105381888))) (by decide) .new true).mpr (by decide)

/-- A node with five agents. -/
def fiveConfig : DSMConfig :=
  .compute 1 1 5 (.ofNat 64 (200 * mb)) (.ofNat 64 (200 * mb))

theorem fiveConfig_accepted :
    DSMConfig.new 1 1 5 (.ofNat 64 (200 * mb)) (.ofNat 64 (200 * mb)) = some fiveConfig := by
  decide

/-- The part of the second agent begins 819 bytes behind the start of a line. -/
theorem refill_not_enough : ¬ ∀ (uNodeNum uAppt uSyst : BitVec 32) (uGmem uCache : BitVec 64)
    (c : DSMConfig) (s : AllocState) (k : AgentId) (d : NodeId) (g : GlobalAllocator)
    (addr size : ℕ) (align : Bool) (a a' : LocalAllocator) (res : GlobalAddress),
    DSMConfig.new uNodeNum uAppt uSyst uGmem uCache = some c → (allocation c).Reachable s →
    k.val < c.systs → (s.chunckAlloc d k).allocChunck = some (g, some addr) →
    1 ≤ size ∧ size ≤ kChunkSize → a.malloc size align = some (a', res, true) →
    ∃ a'' res', (a'.setChunck ⟨addr, d⟩).malloc size align = some (a'', res', false) := by
  intro hall
  obtain ⟨a, res, hm⟩ := hall 1 1 5 _ _ fiveConfig (.initial fiveConfig 0) 1 0 _ 42152755 kChunkSize
    true .new _ _ fiveConfig_accepted (.init (AllocState.initial_init fiveConfig 0 (by decide)))
    (by decide) rfl (by decide) (LocalAllocator.malloc_new (by decide) true)
  have hnone : ((LocalAllocator.new.setChunck ⟨42152755, 0⟩).malloc kChunkSize true).map
      (fun r => r.2.2) = some true := by decide
  have hsome := congrArg (Option.map fun r => r.2.2) hm
  cases hnone.symm.trans hsome

end Refill

/-! ## The null address -/

/-- `GlobalAddress::Null`. -/
def GlobalAddress.null : GlobalAddress := ⟨0, 0⟩

namespace AllocState

variable {c : DSMConfig} {s s' : AllocState} {n : NodeId} {t : ThreadId}

/-- No thread goes on with a chunk that begins at address 0 of node 0. -/
def NotFirst (s : AllocState) (a : AllocAction) : Prop :=
  ∀ n t, a = .finish n t →
    ¬ ((s.threads n t).nextAllocatorNode = 0 ∧ (s.threads n t).reply = some (some 0))

/-- A thread that has a chunk is past address 0, and what waits for one is not empty. -/
structure PastNull (s : AllocState) : Prop where
  cur : ∀ n t, (s.threads n t).waiting = none → (s.threads n t).alloc.logHeads ≠ [] →
    0 < (s.threads n t).alloc.cur.addr
  size : ∀ n t size align, (s.threads n t).waiting = some (size, align) → 1 ≤ size
  regions : ∀ r ∈ s.regions, r.addr ≠ .null

theorem PastNull.thread {th : AllocThread} (h : s.PastNull) {s' : AllocState}
    (hth : s'.threads = Function.update s.threads n (Function.update (s.threads n) t th))
    (hcur : th.waiting = none → th.alloc.logHeads ≠ [] → 0 < th.alloc.cur.addr)
    (hsize : ∀ size align, th.waiting = some (size, align) → 1 ≤ size)
    (hregions : ∀ r ∈ s'.regions, r ∈ s.regions ∨ r.addr ≠ .null) : s'.PastNull where
  cur n' t' := by
    rw [hth]
    by_cases hown : n' = n ∧ t' = t
    · obtain ⟨rfl, rfl⟩ := hown
      rw [update_update_self]
      exact hcur
    · rw [update_update_of_ne _ _ hown]
      exact h.cur n' t'
  size n' t' := by
    rw [hth]
    by_cases hown : n' = n ∧ t' = t
    · obtain ⟨rfl, rfl⟩ := hown
      rw [update_update_self]
      exact hsize
    · rw [update_update_of_ne _ _ hown]
      exact h.size n' t'
  regions r hr := (hregions r hr).elim (h.regions r) id

/-- What is allocated from the rest of a chunk is not null. -/
theorem PastNull.malloc {size : ℕ} {align : Bool} (h : s.PastNull) (hinv : AllocInv c s)
    (hs : s.mallocStep c n t size align = some s') : s'.PastNull := by
  simp only [mallocStep, Option.ite_none_right_eq_some, Option.map_eq_some_iff] at hs
  obtain ⟨⟨-, hwait, hpos, hsize⟩, ⟨a, res, need⟩, hm, rfl⟩ := hs
  cases need with
  | true =>
      refine h.thread rfl (by rintro ⟨⟩) ?_ fun r hr => .inl hr
      rintro _ _ ⟨⟩
      exact hpos
  | false =>
      have hroom : (s.threads n t).alloc.cur.addr + lineSize + size < 2 ^ 64 ∧
          (s.threads n t).alloc.head.addr + kChunkSize < 2 ^ 64 := by
        cases hinv.thread n t with
        | fresh _ _ ha =>
            rw [ha]
            simp only [LocalAllocator.new, lineSize, kChunkSize, mb] at hsize ⊢
            omega
        | cutting g _ _ _ hhead _ hle hgb =>
            rw [hhead]
            simp only [lineSize, kChunkSize, gb, mb] at hsize hle hgb ⊢
            omega
        | asking hw | answered _ hw | refused hw =>
            obtain ⟨_, _, hw, -⟩ := hw
            cases hwait.symm.trans hw
      obtain ⟨-, hge, -, -, hneed⟩ := LocalAllocator.malloc_spec hm hroom.1 hroom.2
      obtain ⟨hlog, -, rfl⟩ := hneed rfl
      have hcur := h.cur n t hwait hlog
      refine h.thread rfl (fun _ _ => ?_) (fun size' align' hw => ?_) fun r hr => ?_
      · exact Nat.lt_of_lt_of_le hcur (hge.trans (Nat.le_add_right _ _))
      · cases hwait.symm.trans hw
      · refine (List.mem_append.mp hr).imp_right fun hr => ?_
        rw [List.mem_singleton.mp hr]
        intro hnull
        have hzero := congrArg GlobalAddress.addr hnull
        exact absurd hcur (Nat.not_lt.mpr (hge.trans hzero.le))

theorem PastNull.serve {k : AgentId} (h : s.PastNull)
    (hs : s.serveStep c n t k = some s') : s'.PastNull := by
  simp only [serveStep, Option.ite_none_right_eq_some, Option.map_eq_some_iff] at hs
  obtain ⟨-, ⟨g, r⟩, -, rfl⟩ := hs
  exact h.thread rfl (h.cur n t) (h.size n t) fun r hr => .inl hr

/-- The first region of a chunk: it is null just when the chunk begins at address 0 of node 0. -/
theorem finish_region (hroom : c.gmemSizePerNode.toNat + mb ≤ 2 ^ 64) (hinv : AllocInv c s)
    (hs : s.finishStep c n t = some s') : ∃ size align r a, (s.threads n t).waiting =
        some (size, align) ∧
      s'.threads = Function.update s.threads n (Function.update (s.threads n) t
        { alloc := a
          nextAllocatorNode := Fin.ofNat 8 (((s.threads n t).nextAllocatorNode + 1) % c.nodes)
          waiting := none
          reply := none }) ∧
      s'.regions = s.regions ++ [r] ∧ a.cur.addr = r.addr.addr + size ∧
      (r.addr = .null ↔
        (s.threads n t).nextAllocatorNode = 0 ∧ (s.threads n t).reply = some (some 0)) := by
  simp only [finishStep] at hs
  split at hs
  next size align addr hwait hreply =>
    obtain ⟨⟨a, res, need⟩, hm, hret⟩ := Option.bind_eq_some_iff.mp hs
    cases need with
    | true => cases hret
    | false =>
        cases hret
        cases hinv.thread n t with
        | answered g hw hr hg hnext hno =>
            cases hreply.symm.trans hr
            obtain ⟨_, _, hw, hle⟩ := hw
            cases hwait.symm.trans hw
            have hend := (hinv.inRange g hg.2.1).end_le_gmem
            have hspec := LocalAllocator.malloc_spec hm (by
              simp only [LocalAllocator.setChunck, lineSize, kChunkSize, mb] at *
              omega) (by
              simp only [LocalAllocator.setChunck, mb] at *
              omega)
            obtain ⟨hn, hge, -, -, hneed⟩ := hspec
            obtain ⟨-, -, rfl⟩ := hneed rfl
            refine ⟨size, align, _, _, hwait, rfl, rfl, rfl, ?_⟩
            rw [hreply]
            constructor
            · intro hnull
              have haddr := congrArg GlobalAddress.addr hnull
              have hnode := congrArg GlobalAddress.nodeID hnull
              refine ⟨hn.symm.trans hnode, ?_⟩
              have hzero : g.addr c = 0 := Nat.le_zero.mp (hge.trans haddr.le)
              rw [hzero]
            · rintro ⟨hnode, hzero⟩
              obtain hzero := Option.some.inj (Option.some.inj hzero)
              rw [LocalAllocator.malloc_res hm, LocalAllocator.alignCur, if_neg]
              · rw [hzero, hnode]
                rfl
              · rw [hzero]
                exact fun h => h.2 rfl
        | fresh hw => cases hwait.symm.trans hw
        | cutting _ hw => cases hwait.symm.trans hw
        | asking _ hr => cases hreply.symm.trans hr
        | refused _ hr => cases hreply.symm.trans hr
  next => cases hs

theorem PastNull.finish (h : s.PastNull) (hroom : c.gmemSizePerNode.toNat + mb ≤ 2 ^ 64)
    (hinv : AllocInv c s) (hok : s.NotFirst (.finish n t)) (hs : s.finishStep c n t = some s') :
    s'.PastNull := by
  obtain ⟨size, align, r, a, hwait, hth, hregions, hcur, hnull⟩ := finish_region hroom hinv hs
  have hpos := h.size n t size align hwait
  refine h.thread hth (fun _ _ => ?_) nofun fun r' hr' => ?_
  · dsimp only
    omega
  · rw [hregions] at hr'
    refine (List.mem_append.mp hr').imp_right fun hr' => ?_
    rw [List.mem_singleton.mp hr']
    exact fun hr => hok n t rfl (hnull.mp hr)

theorem PastNull.of_init (h : s.Init c) : s.PastNull where
  cur n t _ hlog := by
    rw [h.alloc n t] at hlog
    exact absurd rfl hlog
  size n t _ _ hw := by
    rw [h.waiting n t] at hw
    cases hw
  regions := by
    rw [h.regions]
    nofun

theorem pastNull (hroom : c.gmemSizePerNode.toNat + mb ≤ 2 ^ 64)
    (hr : (allocation c).ReachableWhen NotFirst s) : s.PastNull := by
  refine hr.invariant (fun _ => .of_init) fun s a s' hr hok h hs => ?_
  have hinv : AllocInv c s := .of_reachable hroom hr.reachable
  cases a with
  | malloc n t size align => exact h.malloc hinv hs
  | serve n t k => exact h.serve hs
  | finish n t => exact h.finish hroom hinv hok hs

/-- As long as no thread goes on with the chunk at address 0 of node 0, no allocation returns the
null address, and the one that does go on with it does. -/
theorem allocated_not_null {uNodeNum uAppt uSyst : BitVec 32} {uGmem uCache : BitVec 64}
    (hc : DSMConfig.new uNodeNum uAppt uSyst uGmem uCache = some c)
    (hr : (allocation c).ReachableWhen NotFirst s) :
    (∀ r ∈ s.regions, r.addr ≠ .null) ∧ ∀ a s', (allocation c).step a s = some s' →
      ((∀ r ∈ s'.regions, r.addr ≠ .null) ↔ s.NotFirst a) := by
  have hroom := DSMConfig.gmem_room hc
  refine ⟨(pastNull hroom hr).regions, fun a s' hs => ⟨fun hall => ?_, fun hok => ?_⟩⟩
  · rintro n t rfl hfirst
    obtain ⟨size, align, r, a, -, -, hregions, -, hnull⟩ :=
      finish_region hroom (.of_reachable hroom hr.reachable) hs
    refine hall r ?_ (hnull.mpr hfirst)
    rw [hregions]
    exact List.mem_append_right _ (List.mem_singleton_self r)
  · exact (pastNull hroom (.step hr hok hs)).regions

/-- The guard as a check that a run can evaluate. -/
def notFirstCheck (s : AllocState) : AllocAction → Bool
  | .finish n t => (s.threads n t).nextAllocatorNode ≠ 0 ∨ (s.threads n t).reply ≠ some (some 0)
  | _ => true

theorem notFirst_of_check (s : AllocState) (a : AllocAction) (hc : s.notFirstCheck a) :
    s.NotFirst a := by
  rintro n t rfl ⟨hnode, hreply⟩
  rcases of_decide_eq_true hc with h | h
  · exact h hnode
  · exact h hreply

/-- A thread of node 0 has memory of node 1. -/
theorem allocated_not_null_pair : ∃ s : AllocState,
    s.regions.map (fun r => (r.addr, r.size)) = [(⟨0, 1⟩, 100)] ∧
      ∀ r ∈ s.regions, r.addr ≠ .null := by
  obtain ⟨s, hr, hv⟩ := TransitionSystem.exists_reachableWhen (T := allocation pairConfig)
    (f := fun s => s.regions.map fun r => (r.addr, r.size)) (v := [(⟨0, 1⟩, 100)])
    [.malloc 0 0 100 true, .serve 0 0 0, .finish 0 0] notFirst_of_check
    (initial_init pairConfig 1 (by decide)) (by decide)
  exact ⟨s, hv, (allocated_not_null pairConfig_accepted hr).1⟩

/-- The first thread to ask node 0 is given the null address. -/
theorem allocated_null : ¬ ∀ (uNodeNum uAppt uSyst : BitVec 32) (uGmem uCache : BitVec 64)
    (c : DSMConfig) (s : AllocState),
    DSMConfig.new uNodeNum uAppt uSyst uGmem uCache = some c → (allocation c).Reachable s →
    ∀ r ∈ s.regions, r.addr ≠ .null := by
  intro hall
  obtain ⟨s, hr, hv⟩ := TransitionSystem.exists_reachable (T := allocation pairConfig)
    (f := fun s => s.regions.map Region.addr) (v := [.null])
    [.malloc 0 0 100 true, .serve 0 0 0, .finish 0 0] (initial_init pairConfig 0 (by decide))
    (by decide)
  obtain ⟨r, hmem, hnull⟩ := List.mem_map.mp (hv ▸ List.mem_singleton_self GlobalAddress.null)
  exact hall _ _ _ _ _ _ s pairConfig_accepted hr r hmem hnull

end AllocState

end Ting
