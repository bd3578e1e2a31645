/-
# `Ting.Soft.Coverage` — which allocations have a directory entry

The loop that initialises the directory counts blocks in the size the user gave; the agents divide
the size that was rounded up, and never less than 200 MB.  Whether a thread can get a block without
a directory entry depends on the last whole chunk of the last agent: if that ends within the blocks
counted, all chunks do, and if not, a thread that asks often enough is given one that does not.
-/
import Ting.Soft.Chunks
import Mathlib.Data.Int.CardIntervalMod

namespace Ting

section Runs

variable {c : DSMConfig} {k : AgentId}

/-- Every block of every chunk is counted: there is no chunk at all, or the last one ends within
the blocks. -/
def DSMConfig.Covered (c : DSMConfig) : Prop :=
  c.nodes = 0 ∨ c.systs = 0 ∨ c.gmemSizePerSyst < kChunkSize ∨
    c.gmemSizePerSyst * (c.systs - 1) + c.gmemSizePerSyst / kChunkSize * kChunkSize ≤
      c.gblocks * lineSize

instance (c : DSMConfig) : Decidable c.Covered :=
  inferInstanceAs (Decidable (_ ∨ _))

/-! ## A thread that asks again and again -/

theorem LocalAllocator.malloc_need {a : LocalAllocator}
    (h : a.logHeads = [] ∨ a.head.addr < a.cur.addr) (hcur : a.cur.addr + kChunkSize ≤ 40 * gb)
    (hhead : a.head.addr + kChunkSize ≤ 40 * gb) :
    a.malloc kChunkSize false = some (a, a.cur, true) := by
  have hstop : (a.cur.addr + kChunkSize) % 2 ^ 64 = a.cur.addr + kChunkSize :=
    Nat.mod_eq_of_lt (Nat.lt_of_le_of_lt hcur (by decide))
  have hend : (a.head.addr + kChunkSize) % 2 ^ 64 = a.head.addr + kChunkSize :=
    Nat.mod_eq_of_lt (Nat.lt_of_le_of_lt hhead (by decide))
  have hmore : a.logHeads = [] ∨ a.cur.addr + kChunkSize > a.head.addr + kChunkSize :=
    h.imp_right fun hlt => Nat.add_lt_add_right hlt _
  simp only [malloc, alignCur, Bool.false_eq_true, false_and, if_false, hstop, hend, if_pos hcur,
    if_pos hmore]

theorem LocalAllocator.malloc_chunk (a : LocalAllocator) {g : GlobalAddress}
    (h : g.addr + kChunkSize ≤ 40 * gb) :
    (a.setChunck g).malloc kChunkSize false = some
      ({ a.setChunck g with cur := ⟨g.addr + kChunkSize, g.nodeID⟩ }, g, false) := by
  have hstop : (g.addr + kChunkSize) % 2 ^ 64 = g.addr + kChunkSize :=
    Nat.mod_eq_of_lt (Nat.lt_of_le_of_lt h (by decide))
  have hfits : ¬ (a.logHeads ++ [g] = [] ∨ g.addr + kChunkSize > g.addr + kChunkSize) := by
    simp
  simp only [malloc, setChunck, alignCur, Bool.false_eq_true, false_and, if_false, hstop,
    if_pos h, if_neg hfits]

theorem GlobalAllocator.Carves.alloc_some {a : GlobalAllocator} (h : a.Carves c k)
    (hk : k.val < c.systs) (hroom : a.bitmapTail < c.gmemSizePerSyst / kChunkSize) :
    ∃ a', a.allocChunck = some (a', some (c.gmemSizePerSyst * k + a.bitmapTail * kChunkSize)) ∧
      a'.bitmapTail = a.bitmapTail + 1 := by
  have hlen : ¬ a.bitmapTail ≥ a.bitmapLen := Nat.not_le.mpr (h.len ▸ hroom)
  have hend := Given.InRange.end_le_gmem (g := ⟨0, k, a.bitmapTail, 0, 0⟩) ⟨hk, hroom⟩
  have hmod : (a.start + a.bitmapTail * kChunkSize) % 2 ^ 64 =
      c.gmemSizePerSyst * k + a.bitmapTail * kChunkSize := by
    rw [h.start]
    exact Nat.mod_eq_of_lt
      (Nat.lt_of_le_of_lt (Nat.le_of_add_right_le hend) c.gmemSizePerNode.isLt)
  refine ⟨{ a with bitmap := Function.update a.bitmap a.bitmapTail true
                   bitmapTail := a.bitmapTail + 1 }, ?_, rfl⟩
  rw [allocChunck, if_neg hlen, if_pos (h.free _ le_rfl), hmod]

/-! ## The three steps of an allocation -/

namespace AllocState

variable {s : AllocState} {n : NodeId} {t : ThreadId} {th : AllocThread}

theorem setThread_self : (s.setThread n t th).threads n t = th :=
  update_update_self _ _ _ _

theorem malloc_eq {res : GlobalAddress} (hn : n.val < c.nodes)
    (hw : (s.threads n t).waiting = none)
    (hm : (s.threads n t).alloc.malloc kChunkSize false =
      some ((s.threads n t).alloc, res, true)) :
    (allocation c).step (.malloc n t kChunkSize false) s =
      some (s.setThread n t { s.threads n t with waiting := some (kChunkSize, false) }) := by
  have hguard : n.val < c.nodes ∧ (s.threads n t).waiting = none ∧ 1 ≤ kChunkSize ∧
      kChunkSize ≤ kChunkSize := ⟨hn, hw, by decide, le_rfl⟩
  simp only [allocation, step, mallocStep, if_pos hguard, hm, Option.map_some]

/-- After agent `k` of node `d` has given a chunk at `b` to the thread. -/
def served (s : AllocState) (n : NodeId) (t : ThreadId) (d : NodeId) (k : AgentId)
    (a : GlobalAllocator) (b : ℕ) : AllocState :=
  { s.setThread n t { s.threads n t with reply := some (some b) } with
    chunckAlloc := Function.update s.chunckAlloc d (Function.update (s.chunckAlloc d) k a)
    given := s.given ++ [⟨d, k, (s.chunckAlloc d k).bitmapTail, n, t⟩]
    chunk := Function.update s.chunk n (Function.update (s.chunk n) t
      (some ⟨d, k, (s.chunckAlloc d k).bitmapTail, n, t⟩)) }

theorem served_self {d : NodeId} {a : GlobalAllocator} {b : ℕ} :
    (s.served n t d k a b).threads n t = { s.threads n t with reply := some (some b) } :=
  update_update_self _ _ _ _

theorem serve_eq {d : NodeId} {a : GlobalAllocator} {b : ℕ}
    (hw : (s.threads n t).waiting.isSome) (hr : (s.threads n t).reply = none)
    (hd : (s.threads n t).nextAllocatorNode = d) (hk : k.val < c.systs)
    (ha : (s.chunckAlloc d k).allocChunck = some (a, some b)) :
    (allocation c).step (.serve n t k) s = some (s.served n t d k a b) := by
  subst hd
  have hguard : (s.threads n t).waiting.isSome ∧ (s.threads n t).reply = none ∧
      k.val < c.systs := ⟨hw, hr, hk⟩
  simp only [allocation, step, serveStep, if_pos hguard, ha, Option.map_some]
  rfl

theorem finish_eq {a : LocalAllocator} {res : GlobalAddress} {b size : ℕ} {align : Bool}
    (hw : (s.threads n t).waiting = some (size, align))
    (hr : (s.threads n t).reply = some (some b))
    (hm : ((s.threads n t).alloc.setChunck ⟨b, (s.threads n t).nextAllocatorNode⟩).malloc size
      align = some (a, res, false)) :
    (allocation c).step (.finish n t) s = some ((s.setThread n t
      { alloc := a
        nextAllocatorNode := Fin.ofNat 8 (((s.threads n t).nextAllocatorNode + 1) % c.nodes)
        waiting := none
        reply := none }).returned n t res size align) := by
  simp only [allocation, step, finishStep, hw, hr, hm, Option.bind_some]

end AllocState

/-- Thread 0 of node 0 has been given `j` chunks, all by agent `k` of the nodes in turn, and nobody
else anything. -/
structure Rounds (c : DSMConfig) (k : AgentId) (j : ℕ) (s : AllocState) : Prop where
  reach : (allocation c).Reachable s
  waiting : (s.threads 0 0).waiting = none
  reply : (s.threads 0 0).reply = none
  next : (s.threads 0 0).nextAllocatorNode.val = j % c.nodes
  used : (s.threads 0 0).alloc.logHeads = [] ∨
    (s.threads 0 0).alloc.head.addr < (s.threads 0 0).alloc.cur.addr
  cur : (s.threads 0 0).alloc.cur.addr + kChunkSize ≤ 40 * gb
  head : (s.threads 0 0).alloc.head.addr + kChunkSize ≤ 40 * gb
  tail : ∀ d : NodeId, d.val < c.nodes →
    (s.chunckAlloc d k).bitmapTail = j.count (· ≡ d.val [MOD c.nodes])

theorem Rounds.zero (hnodes : 0 < c.nodes) : Rounds c k 0 (.initial c 0) where
  reach := .init (AllocState.initial_init c 0 hnodes)
  waiting := rfl
  reply := rfl
  next := (Nat.zero_mod _).symm
  used := .inl rfl
  cur := show 0 + kChunkSize ≤ 40 * gb by decide
  head := show 0 + kChunkSize ≤ 40 * gb by decide
  tail := fun _ _ => rfl

/-- One more chunk. -/
theorem Rounds.succ {j : ℕ} {s : AllocState} (h : Rounds c k j s)
    (hroom : c.gmemSizePerNode.toNat + mb ≤ 2 ^ 64) (hnodes : 0 < c.nodes) (hmax : c.nodes ≤ 8)
    (hk : k.val < c.systs) (hnum : j / c.nodes < c.gmemSizePerSyst / kChunkSize)
    (hend : c.gmemSizePerSyst * k + j / c.nodes * kChunkSize + 2 * kChunkSize ≤ 40 * gb) :
    ∃ s', Rounds c k (j + 1) s' ∧ ∃ r ∈ s'.regions,
      r.addr.addr = c.gmemSizePerSyst * k + j / c.nodes * kChunkSize ∧ r.size = kChunkSize := by
  have hinv : AllocInv c s := .of_reachable hroom h.reach
  generalize hd : (s.threads 0 0).nextAllocatorNode = d
  have hdval : d.val = j % c.nodes := hd ▸ h.next
  have hdlt : d.val < c.nodes := hdval ▸ Nat.mod_lt _ hnodes
  have htail : (s.chunckAlloc d k).bitmapTail = j / c.nodes := by
    rw [h.tail d hdlt, Nat.count_modEq_card _ hnodes, Nat.mod_eq_of_lt hdlt, hdval,
      if_neg (Nat.lt_irrefl _), Nat.add_zero]
  obtain ⟨a, hgive, hatail⟩ := (hinv.carves d k hk).alloc_some hk (htail ▸ hnum)
  rw [htail] at hgive hatail
  generalize hb : c.gmemSizePerSyst * k + j / c.nodes * kChunkSize = b at hend hgive ⊢
  have hfit : b + kChunkSize ≤ 40 * gb := by omega
  -- the thread asks, agent `k` answers, and the thread takes all of the chunk
  have hask := LocalAllocator.malloc_need h.used h.cur h.head
  have htake := (s.threads 0 0).alloc.malloc_chunk (g := ⟨b, d⟩) hfit
  have h₁ := AllocState.malloc_eq hnodes h.waiting hask
  generalize hs₁ : s.setThread 0 0 { s.threads 0 0 with waiting := some (kChunkSize, false) } = s₁
    at h₁
  have hth₁ : s₁.threads 0 0 = { s.threads 0 0 with waiting := some (kChunkSize, false) } := by
    rw [← hs₁, AllocState.setThread_self]
  have halloc₁ : s₁.chunckAlloc = s.chunckAlloc := by
    rw [← hs₁]
    rfl
  have hw₁ : (s₁.threads 0 0).waiting.isSome := by rw [hth₁]; rfl
  have hr₁ : (s₁.threads 0 0).reply = none := by rw [hth₁]; exact h.reply
  have hd₁ : (s₁.threads 0 0).nextAllocatorNode = d := by rw [hth₁]; exact hd
  rw [← halloc₁] at hgive
  have h₂ := AllocState.serve_eq hw₁ hr₁ hd₁ hk hgive
  generalize hs₂ : s₁.served 0 0 d k a b = s₂ at h₂
  have hth₂ : s₂.threads 0 0 = ⟨(s.threads 0 0).alloc, d, some (kChunkSize, false),
      some (some b)⟩ := by
    rw [← hs₂, AllocState.served_self, hth₁, ← hd]
  have htake₂ : ((s₂.threads 0 0).alloc.setChunck ⟨b, (s₂.threads 0 0).nextAllocatorNode⟩).malloc
      kChunkSize false = some ({ (s.threads 0 0).alloc.setChunck ⟨b, d⟩ with
        cur := ⟨b + kChunkSize, d⟩ }, ⟨b, d⟩, false) := by
    rw [hth₂]
    exact htake
  have h₃ := AllocState.finish_eq (c := c) (congrArg AllocThread.waiting hth₂)
    (congrArg AllocThread.reply hth₂) htake₂
  refine ⟨_, ⟨.step (.step (.step h.reach trivial h₁) trivial h₂) trivial h₃, ?_, ?_, ?_, ?_, ?_,
    ?_, fun d' hd' => ?_⟩, ⟨⟨b, d⟩, kChunkSize, false, 0, 0, s₂.chunk 0 0⟩,
    List.mem_append_right _ (List.mem_singleton_self _), rfl, rfl⟩
  all_goals simp only [AllocState.returned, AllocState.setThread_self]
  · rw [hth₂, Fin.val_ofNat, hdval, Nat.mod_eq_of_lt, Nat.mod_add_mod]
    exact (Nat.mod_lt _ hnodes).trans_le hmax
  · right
    show b < b + kChunkSize
    exact Nat.lt_add_of_pos_right (by decide)
  · show b + kChunkSize + kChunkSize ≤ 40 * gb
    rw [Nat.add_assoc, ← Nat.two_mul]
    exact hend
  · exact hfit
  · have halloc₂ : s₂.chunckAlloc = Function.update s.chunckAlloc d
        (Function.update (s.chunckAlloc d) k a) := by
      rw [← hs₂, ← halloc₁]
      rfl
    rw [Nat.count_succ]
    show (s₂.chunckAlloc d' k).bitmapTail = _
    rw [halloc₂]
    by_cases hsame : d' = d
    · subst hsame
      have hmod : j ≡ d'.val [MOD c.nodes] := by
        rw [hdval]
        exact (Nat.mod_modEq _ _).symm
      rw [update_update_self, if_pos hmod, ← h.tail d' hdlt, htail, hatail]
    · have hmod : ¬ j ≡ d'.val [MOD c.nodes] := by
        intro hm
        refine hsame (Fin.ext ?_)
        rw [hdval, hm, Nat.mod_eq_of_lt hd']
      rw [update_update_of_ne _ _ fun hp => hsame hp.1, if_neg hmod, h.tail d' hd', Nat.add_zero]

/-- Up to the chunk with number `i` of node 0, if the assertion of `malloc` holds there. -/
theorem Rounds.exists (hroom : c.gmemSizePerNode.toNat + mb ≤ 2 ^ 64) (hnodes : 0 < c.nodes)
    (hmax : c.nodes ≤ 8) (hk : k.val < c.systs) {i : ℕ}
    (hnum : i < c.gmemSizePerSyst / kChunkSize)
    (hend : c.gmemSizePerSyst * k + i * kChunkSize + 2 * kChunkSize ≤ 40 * gb) {j : ℕ}
    (hj : j ≤ i * c.nodes) : ∃ s, Rounds c k j s := by
  induction j with
  | zero => exact ⟨_, .zero hnodes⟩
  | succ j ih =>
      obtain ⟨s, hs⟩ := ih (Nat.le_of_succ_le hj)
      have hlt : j / c.nodes < i := Nat.div_lt_of_lt_mul (Nat.mul_comm i _ ▸ hj)
      have hle : j / c.nodes * kChunkSize ≤ i * kChunkSize := Nat.mul_le_mul_right _ hlt.le
      obtain ⟨s', hs', -⟩ := hs.succ hroom hnodes hmax hk (hlt.trans hnum) (by omega)
      exact ⟨s', hs'⟩

/-! ## Which chunks are covered -/

/-- If not every chunk is covered, then one that does not end far above the blocks is not. -/
theorem DSMConfig.exists_not_covered (h : ¬ c.Covered) :
    0 < c.nodes ∧ ∃ k i, k < c.systs ∧ i < c.gmemSizePerSyst / kChunkSize ∧
      c.gblocks * lineSize < c.gmemSizePerSyst * k + i * kChunkSize + kChunkSize ∧
      c.gmemSizePerSyst * k + i * kChunkSize ≤ c.gblocks * lineSize + kChunkSize := by
  obtain ⟨hnodes, h⟩ := not_or.mp h
  obtain ⟨hsysts, h⟩ := not_or.mp h
  obtain ⟨hchunk, hlast⟩ := not_or.mp h
  refine ⟨Nat.pos_of_ne_zero hnodes, ?_⟩
  generalize c.gmemSizePerSyst = size at *
  generalize c.gblocks * lineSize = bound at *
  have hdiv : 0 < size / kChunkSize := Nat.div_pos (Nat.le_of_not_lt hchunk) (by decide)
  have hrest : size < size / kChunkSize * kChunkSize + kChunkSize :=
    Nat.lt_div_mul_add (by decide)
  -- the first agent with such a chunk
  have hex : ∃ k, bound < size * k + size / kChunkSize * kChunkSize :=
    ⟨c.systs - 1, Nat.lt_of_not_le hlast⟩
  have hk := Nat.find_spec hex
  have hkle : Nat.find hex ≤ c.systs - 1 := Nat.find_min' hex (Nat.lt_of_not_le hlast)
  have hstart : size * Nat.find hex ≤ bound + kChunkSize := by
    cases hk0 : Nat.find hex with
    | zero => exact Nat.zero_le _
    | succ m =>
        have hm := Nat.le_of_not_lt (Nat.find_min hex (m := m) (by omega))
        rw [Nat.mul_succ]
        omega
  generalize Nat.find hex = k at hk hkle hstart
  -- and the first such chunk of that agent
  have hex' : ∃ i, bound < size * k + i * kChunkSize + kChunkSize := by
    refine ⟨size / kChunkSize - 1, ?_⟩
    rw [Nat.add_assoc, ← Nat.succ_mul, Nat.succ_eq_add_one, Nat.sub_add_cancel hdiv]
    exact hk
  have hi := Nat.find_spec hex'
  refine ⟨k, Nat.find hex', by omega, ?_, hi, ?_⟩
  · refine (Nat.find_min' hex' (m := size / kChunkSize - 1) ?_).trans_lt
      (Nat.sub_lt hdiv Nat.one_pos)
    rw [Nat.add_assoc, ← Nat.succ_mul, Nat.succ_eq_add_one, Nat.sub_add_cancel hdiv]
    exact hk
  · cases hi0 : Nat.find hex' with
    | zero => rwa [Nat.zero_mul, Nat.add_zero]
    | succ m =>
        have hm := Nat.le_of_not_lt (Nat.find_min hex' (m := m) (by omega))
        rw [Nat.succ_mul]
        omega

/-- Where every chunk is covered, no chunk ends above the blocks. -/
theorem DSMConfig.Covered.end_le (h : c.Covered) (hnodes : c.nodes ≠ 0) {g : Given}
    (hg : g.InRange c) : g.addr c + kChunkSize ≤ c.gblocks * lineSize := by
  obtain ⟨hk, hnum⟩ := hg
  rcases h with h | h | h | h
  · exact absurd h hnodes
  · rw [h] at hk
    exact absurd hk (Nat.not_lt_zero _)
  · rw [Nat.div_eq_of_lt h] at hnum
    exact absurd hnum (Nat.not_lt_zero _)
  · refine le_trans ?_ h
    rw [Given.addr, Nat.add_assoc, ← Nat.succ_mul]
    exact Nat.add_le_add (Nat.mul_le_mul_left _ (Nat.le_sub_one_of_lt hk))
      (Nat.mul_le_mul_right _ hnum)

end Runs

/-- Every block that is allocated has been given a directory entry, exactly if the configuration
covers its chunks. -/
theorem allocated_initialised {uNodeNum uAppt uSyst : BitVec 32} {uGmem uCache : BitVec 64}
    {c : DSMConfig} (hc : DSMConfig.new uNodeNum uAppt uSyst uGmem uCache = some c) :
    (∀ s, (allocation c).Reachable s → ∀ r ∈ s.regions, ∀ a ∈ r.bytes,
        (GlobalAddress.mk a r.addr.nodeID).getIndex < c.gblocks) ↔ c.Covered := by
  have hroom := DSMConfig.gmem_room hc
  have hacc := (DSMConfig.new_eq_some hc).2
  constructor
  · intro h
    by_contra hnot
    obtain ⟨hnodes, k, i, hk, hnum, hlast, hstart⟩ := DSMConfig.exists_not_covered hnot
    have hmax : c.nodes ≤ 8 := Int.toNat_le.mpr hacc.1
    have hsysts : c.systs ≤ 8 := Int.toNat_le.mpr hacc.2.2.1
    have hblocks := DSMConfig.gblocks_le hc
    have hend : c.gmemSizePerSyst * k + i * kChunkSize + 2 * kChunkSize ≤ 40 * gb := by
      simp only [kChunkSize, lineSize, gb, mb] at hstart ⊢
      omega
    have hdiv : i * c.nodes / c.nodes = i := Nat.mul_div_cancel _ hnodes
    obtain ⟨s, hs⟩ := Rounds.exists (k := ⟨k, hk.trans_le hsysts⟩) hroom hnodes hmax hk hnum hend
      le_rfl
    obtain ⟨s', hs', r, hr, haddr, hsize⟩ := hs.succ hroom hnodes hmax hk (hdiv.symm ▸ hnum)
      (hdiv.symm ▸ hend)
    rw [hdiv] at haddr
    have hlt := h s' hs'.reach r hr (r.addr.addr + kChunkSize - 1) ⟨by
      rw [kChunkSize, mb]
      omega, by
      rw [hsize, kChunkSize, mb]
      omega⟩
    rw [GlobalAddress.getIndex, Nat.div_lt_iff_lt_mul (by decide), haddr] at hlt
    simp only at hlt
    omega
  · intro h s hs r hr a ha
    have hinv : AllocInv c s := .of_reachable hroom hs
    have hnodes : c.nodes ≠ 0 := by
      intro h0
      refine hs.invariant (P := fun _ => False) (fun s hi => ?_) fun _ _ _ _ hf _ => hf
      exact Nat.not_lt_zero _ (h0 ▸ hi.next 0 0)
    obtain ⟨g, hcut⟩ := hinv.cut r hr
    rw [GlobalAddress.getIndex, Nat.div_lt_iff_lt_mul (by decide)]
    exact (ha.2.trans_le hcut.upper).trans_le (h.end_le hnodes (hinv.inRange g hcut.mem))

/-- Here the last chunk ends 3.5 MB below the end of the blocks counted. -/
theorem allocated_initialised_pair : pairConfig.Covered ∧
    ∀ s, (allocation pairConfig).Reachable s → ∀ r ∈ s.regions, ∀ a ∈ r.bytes,
      (GlobalAddress.mk a r.addr.nodeID).getIndex < pairConfig.gblocks := by
  have hcov : pairConfig.Covered := by decide
  exact ⟨hcov, (allocated_initialised pairConfig_accepted).mpr hcov⟩

/-- A node with seven agents and one line less than 224 MB of global memory. -/
def shortConfig : DSMConfig :=
  .compute 1 1 7 (.ofNat 64 (224 * mb - lineSize)) (.ofNat 64 (200 * mb))

theorem shortConfig_accepted :
    DSMConfig.new 1 1 7 (.ofNat 64 (224 * mb - lineSize)) (.ofNat 64 (200 * mb))
      = some shortConfig := by
  decide

/-- It counts 57343 blocks, and the last line of the chunk of its last agent is block 57343. -/
theorem allocated_not_initialised : ∃ s, (allocation shortConfig).Reachable s ∧
    ∃ r ∈ s.regions, ∃ a ∈ r.bytes,
      ¬ (GlobalAddress.mk a r.addr.nodeID).getIndex < shortConfig.gblocks := by
  have hblocks : shortConfig.gblocks = 57343 := by decide
  obtain ⟨s, hs, hv⟩ := TransitionSystem.exists_reachable (T := allocation shortConfig)
    (f := fun s => s.regions.getLast?.map fun r => (r.addr.addr, r.size))
    (v := some (6 * kChunkSize, kChunkSize))
    [.malloc 0 0 kChunkSize false, .serve 0 0 6, .finish 0 0]
    (AllocState.initial_init shortConfig 0 (by decide)) (by decide)
  obtain ⟨r, hr, heq⟩ := Option.map_eq_some_iff.mp hv
  obtain ⟨haddr, hsize⟩ := Prod.mk.inj heq
  refine ⟨s, hs, r, List.mem_of_getLast? hr, 57343 * lineSize, ⟨?_, ?_⟩, ?_⟩
  · rw [haddr]
    decide
  · rw [haddr, hsize]
    decide
  · rw [hblocks, GlobalAddress.getIndex, Nat.mul_div_cancel _ (by decide)]
    exact Nat.lt_irrefl _

end Ting
