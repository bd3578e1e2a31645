/-
# `Ting.Soft.Chunks` — no byte is allocated twice

The parts of the agents are disjoint, the chunks of an agent are numbered, and a thread cuts its
chunk from the front: so what is allocated is disjoint, across threads because their chunks are and
within a thread because `cur` only moves on.

The arithmetic is that of `uint64_t`.  A chunk never reaches the end of the address space, and the
assertion of `LocalAllocator::malloc` keeps the chunk a thread works on below 40 GB, so no sum that
is formed wraps around.
-/
import Ting.Soft.Allocators
import Mathlib.Order.Interval.Set.Disjoint

namespace Ting

/-! ## Chunks -/

namespace Given

/-- Where the chunk starts. -/
def addr (c : DSMConfig) (g : Given) : ℕ :=
  c.gmemSizePerSyst * g.agent + g.number * kChunkSize

/-- Its bytes. -/
def bytes (c : DSMConfig) (g : Given) : Set ℕ :=
  Set.Ico (g.addr c) (g.addr c + kChunkSize)

/-- It is a chunk of its agent. -/
def InRange (c : DSMConfig) (g : Given) : Prop :=
  g.agent.val < c.systs ∧ g.number < c.gmemSizePerSyst / kChunkSize

/-- It was given to thread `t` of node `n`. -/
def To (g : Given) (n : NodeId) (t : ThreadId) : Prop :=
  g.toNode = n ∧ g.toThread = t

/-- They are not the same chunk of the same agent. -/
def Apart (g h : Given) : Prop :=
  ¬ (g.nodeID = h.nodeID ∧ g.agent = h.agent ∧ g.number = h.number)

instance : Std.Symm Apart :=
  ⟨fun _ _ h hs => h ⟨hs.1.symm, hs.2.1.symm, hs.2.2.symm⟩⟩

variable {c : DSMConfig} {g h : Given}

/-- A chunk ends within the part of its agent. -/
theorem InRange.end_le (hg : g.InRange c) :
    g.addr c + kChunkSize ≤ c.gmemSizePerSyst * (g.agent + 1) := by
  have hnum : (g.number + 1) * kChunkSize ≤ c.gmemSizePerSyst :=
    (Nat.mul_le_mul_right _ hg.2).trans (Nat.div_mul_le_self _ _)
  rw [addr, Nat.mul_add_one, Nat.add_assoc, ← Nat.succ_mul]
  exact Nat.add_le_add_left hnum _

/-- A chunk ends within the memory of its node. -/
theorem InRange.end_le_gmem (hg : g.InRange c) :
    g.addr c + kChunkSize ≤ c.gmemSizePerNode.toNat :=
  calc g.addr c + kChunkSize
    _ ≤ c.gmemSizePerSyst * (g.agent + 1) := hg.end_le
    _ ≤ c.gmemSizePerSyst * c.systs := Nat.mul_le_mul_left _ hg.1
    _ ≤ c.gmemSizePerNode.toNat := Nat.div_mul_le_self _ _

/-- Two chunks of one node that differ in agent or number are disjoint. -/
theorem InRange.disjoint (hg : g.InRange c) (hh : h.InRange c)
    (hne : ¬ (g.agent = h.agent ∧ g.number = h.number)) : Disjoint (g.bytes c) (h.bytes c) := by
  have hlt : ∀ {g h : Given}, g.InRange c → g.agent < h.agent → g.addr c + kChunkSize ≤ h.addr c :=
    fun {g h} hg hk => hg.end_le.trans
      ((Nat.mul_le_mul_left _ hk).trans (Nat.le_add_right _ _))
  have hnum : ∀ {g h : Given}, g.agent = h.agent → g.number < h.number →
      g.addr c + kChunkSize ≤ h.addr c := by
    intro g h hk hi
    rw [addr, addr, hk, Nat.add_assoc, ← Nat.succ_mul]
    exact Nat.add_le_add_left (Nat.mul_le_mul_right _ hi) _
  have hbefore : ∀ {g h : Given}, g.addr c + kChunkSize ≤ h.addr c →
      Disjoint (g.bytes c) (h.bytes c) := by
    intro g h hle
    rw [bytes, bytes, Set.Ico_disjoint_Ico]
    exact (min_le_left _ _).trans (hle.trans (le_max_right _ _))
  rcases lt_trichotomy g.agent h.agent with hk | hk | hk
  · exact hbefore (hlt hg hk)
  · rcases Nat.lt_trichotomy g.number h.number with hi | hi | hi
    · exact hbefore (hnum hk hi)
    · exact absurd ⟨hk, hi⟩ hne
    · exact (hbefore (hnum hk.symm hi)).symm
  · exact (hbefore (hlt hh hk)).symm

end Given

/-! ## What the allocators do -/

/-- The allocator of agent `k`: it owns its part, and the chunks from the tail on are free. -/
structure GlobalAllocator.Carves (c : DSMConfig) (k : AgentId) (a : GlobalAllocator) : Prop where
  start : a.start = c.gmemSizePerSyst * k
  len : a.bitmapLen = c.gmemSizePerSyst / kChunkSize
  free : ∀ i, a.bitmapTail ≤ i → a.bitmap i = false

theorem DSMConfig.start_lt {c : DSMConfig} {k : AgentId} (hk : k.val < c.systs) :
    c.gmemSizePerSyst * k < 2 ^ 64 :=
  calc c.gmemSizePerSyst * k
    _ ≤ c.gmemSizePerSyst * c.systs := Nat.mul_le_mul_left _ hk.le
    _ ≤ c.gmemSizePerNode.toNat := Nat.div_mul_le_self _ _
    _ < 2 ^ 64 := c.gmemSizePerNode.isLt

theorem GlobalAllocator.Carves.new {c : DSMConfig} {k : AgentId} (hk : k.val < c.systs) :
    (GlobalAllocator.new (c.gmemSizePerSyst * k.val % 2 ^ 64) c.gmemSizePerSyst).Carves c k :=
  ⟨Nat.mod_eq_of_lt (DSMConfig.start_lt hk), rfl, fun _ _ => rfl⟩

/-- An agent has no chunk left, or gives away the one at the tail. -/
theorem GlobalAllocator.Carves.alloc {c : DSMConfig} {k : AgentId} {a a' : GlobalAllocator}
    {r : Option ℕ} (h : a.Carves c k) (hk : k.val < c.systs) (d n : NodeId) (t : ThreadId)
    (ha : a.allocChunck = some (a', r)) :
    a'.Carves c k ∧
      (r = none ∧ a' = a ∨
        (⟨d, k, a.bitmapTail, n, t⟩ : Given).InRange c ∧ a'.bitmapTail = a.bitmapTail + 1 ∧
          r = some ((⟨d, k, a.bitmapTail, n, t⟩ : Given).addr c)) := by
  unfold allocChunck at ha
  split at ha
  next => cases ha; exact ⟨h, .inl ⟨rfl, rfl⟩⟩
  next hlen =>
    rw [if_pos (h.free _ le_rfl)] at ha
    cases ha
    have hrange : (⟨d, k, a.bitmapTail, n, t⟩ : Given).InRange c :=
      ⟨hk, h.len ▸ Nat.lt_of_not_le hlen⟩
    refine ⟨⟨h.start, h.len, fun i hi => ?_⟩, .inr ⟨hrange, rfl, ?_⟩⟩
    · show Function.update a.bitmap a.bitmapTail true i = false
      rw [Function.update_of_ne (Nat.ne_of_gt hi)]
      exact h.free i (Nat.le_of_succ_le hi)
    · rw [h.start]
      refine congrArg some (Nat.mod_eq_of_lt ?_)
      have hend : c.gmemSizePerSyst * k + a.bitmapTail * kChunkSize + kChunkSize ≤
          c.gmemSizePerNode.toNat := hrange.end_le_gmem
      exact lt_of_le_of_lt (Nat.le_of_add_right_le hend) c.gmemSizePerNode.isLt

/-- Alignment moves `cur` on to the start of a line. -/
theorem LocalAllocator.alignCur_spec (a : LocalAllocator) (align : Bool)
    (h : a.cur.addr + lineSize < 2 ^ 64) :
    (a.alignCur align).head = a.head ∧ (a.alignCur align).logHeads = a.logHeads ∧
      (a.alignCur align).cur.nodeID = a.cur.nodeID ∧
      a.cur.addr ≤ (a.alignCur align).cur.addr ∧
      (a.alignCur align).cur.addr ≤ a.cur.addr + lineSize ∧
      (align = true → (a.alignCur align).cur.addr % lineSize = 0) := by
  unfold alignCur
  split
  next hc =>
    have hmod : (a.cur.addr / lineSize + 1) * lineSize % 2 ^ 64 =
        (a.cur.addr / lineSize + 1) * lineSize := by
      simp only [lineSize] at h ⊢
      omega
    rw [hmod]
    refine ⟨rfl, rfl, rfl, ?_, ?_, fun _ => Nat.mul_mod_left _ _⟩ <;> simp only [lineSize] <;> omega
  next hc =>
    refine ⟨rfl, rfl, rfl, le_rfl, Nat.le_add_right _ _, fun ha => ?_⟩
    by_contra hne
    exact hc ⟨ha, hne⟩

/-- `malloc` where no sum wraps around: the region, if there is one, is cut from what is left of
the chunk, at the start of a line if asked for. -/
theorem LocalAllocator.malloc_spec {a a' : LocalAllocator} {size : ℕ} {align need : Bool}
    {res : GlobalAddress} (hm : a.malloc size align = some (a', res, need))
    (hcur : a.cur.addr + lineSize + size < 2 ^ 64) (hhead : a.head.addr + kChunkSize < 2 ^ 64) :
    res.nodeID = a.cur.nodeID ∧ a.cur.addr ≤ res.addr ∧ res.addr + size ≤ 40 * gb ∧
      (align = true → res.addr % lineSize = 0) ∧
      (need = false → a.logHeads ≠ [] ∧ res.addr + size ≤ a.head.addr + kChunkSize ∧
        a' = { a with cur := ⟨res.addr + size, a.cur.nodeID⟩ }) := by
  have hbound : a.cur.addr + lineSize < 2 ^ 64 := Nat.lt_of_add_right_lt hcur
  obtain ⟨hh, hl, hn, hge, hle, hal⟩ := a.alignCur_spec align hbound
  have hstop : ((a.alignCur align).cur.addr + size) % 2 ^ 64 = (a.alignCur align).cur.addr + size :=
    Nat.mod_eq_of_lt (lt_of_le_of_lt (Nat.add_le_add_right hle size) hcur)
  simp only [malloc, hstop, hh, hl, Nat.mod_eq_of_lt hhead, Option.ite_none_right_eq_some] at hm
  obtain ⟨hgb, hm⟩ := hm
  split at hm
  next => cases hm; exact ⟨hn, hge, hgb, hal, nofun⟩
  next hno =>
    cases hm
    obtain ⟨hlog, hfit⟩ := not_or.mp hno
    refine ⟨hn, hge, hgb, hal, fun _ => ⟨hlog, Nat.le_of_not_gt hfit, ?_⟩⟩
    rw [hn]

/-! ## What every thread is doing -/

theorem update_update_self {β γ : Type} (f : NodeId → β → γ) [DecidableEq β] (n : NodeId) (b : β)
    (v : γ) : Function.update f n (Function.update (f n) b v) n b = v := by
  rw [Function.update_self, Function.update_self]

theorem update_update_of_ne {β γ : Type} [DecidableEq β] (f : NodeId → β → γ) {n m : NodeId}
    {b e : β} (v : γ) (h : ¬ (m = n ∧ e = b)) :
    Function.update f n (Function.update (f n) b v) m e = f m e := by
  by_cases hn : m = n
  · subst hn
    rw [Function.update_self, Function.update_of_ne fun he => h ⟨rfl, he⟩]
  · rw [Function.update_of_ne hn]

/-- Its bytes. -/
def Region.bytes (r : Region) : Set ℕ :=
  Set.Ico r.addr.addr (r.addr.addr + r.size)

section Invariant

variable {c : DSMConfig}

/-- Chunk `g` has been given to thread `t` of node `n`, and is the last that it was given. -/
def Holds (s : AllocState) (n : NodeId) (t : ThreadId) (g : Given) : Prop :=
  s.chunk n t = some g ∧ g ∈ s.given ∧ g.To n t

/-- An allocation waits for a chunk that is large enough for it. -/
def Waits (th : AllocThread) : Prop :=
  ∃ size align, th.waiting = some (size, align) ∧ size ≤ kChunkSize

/-- The situations of a thread. -/
inductive Situation (c : DSMConfig) (s : AllocState) (n : NodeId) (t : ThreadId)
    (th : AllocThread) : Prop
  | fresh : th.waiting = none → th.reply = none → th.alloc = .new → Situation c s n t th
  | cutting (g : Given) : th.waiting = none → th.reply = none → Holds s n t g →
      th.alloc.head = ⟨g.addr c, g.nodeID⟩ → th.alloc.cur.nodeID = g.nodeID →
      g.addr c ≤ th.alloc.cur.addr → th.alloc.cur.addr ≤ 40 * gb →
      (∀ r ∈ s.regions, r.chunk = some g → r.addr.addr + r.size ≤ th.alloc.cur.addr) →
      Situation c s n t th
  | asking : Waits th → th.reply = none → Situation c s n t th
  | answered (g : Given) : Waits th → th.reply = some (some (g.addr c)) →
      Holds s n t g → th.nextAllocatorNode = g.nodeID →
      (∀ r ∈ s.regions, r.chunk ≠ some g) → Situation c s n t th
  | refused : Waits th → th.reply = some none → Situation c s n t th

/-- Where a returned region lies. -/
structure Region.Cut (c : DSMConfig) (given : List Given) (r : Region) (g : Given) : Prop where
  chunk : r.chunk = some g
  mem : g ∈ given
  owner : g.To r.toNode r.toThread
  nodeID : r.addr.nodeID = g.nodeID
  lower : g.addr c ≤ r.addr.addr
  upper : r.addr.addr + r.size ≤ g.addr c + kChunkSize
  aligned : r.aligned = true → r.addr.addr % lineSize = 0

/-- The invariant of the allocators. -/
structure AllocInv (c : DSMConfig) (s : AllocState) : Prop where
  carves : ∀ d k, k.val < c.systs → (s.chunckAlloc d k).Carves c k
  inRange : ∀ g ∈ s.given, g.InRange c
  below : ∀ g ∈ s.given, g.number < (s.chunckAlloc g.nodeID g.agent).bitmapTail
  once : s.given.Pairwise Given.Apart
  thread : ∀ n t, Situation c s n t (s.threads n t)
  cut : ∀ r ∈ s.regions, ∃ g, r.Cut c s.given g
  disjoint : s.regions.Pairwise fun r r' => r.addr.nodeID = r'.addr.nodeID →
    Disjoint r.bytes r'.bytes

/-- A region lies in its chunk. -/
theorem Region.Cut.subset {given : List Given} {r : Region} {g : Given} (h : r.Cut c given g) :
    r.bytes ⊆ g.bytes c :=
  Set.Ico_subset_Ico h.lower h.upper

/-- Of two chunks that were given, those of one place are the same. -/
theorem AllocInv.eq_of_place {s : AllocState} (h : AllocInv c s) {g g' : Given}
    (hg : g ∈ s.given) (hg' : g' ∈ s.given) (hnode : g.nodeID = g'.nodeID)
    (hplace : g.agent = g'.agent ∧ g.number = g'.number) : g = g' := by
  by_contra hne
  exact h.once.forall hg hg' hne ⟨hnode, hplace⟩

/-- Different chunks that were given are disjoint. -/
theorem AllocInv.given_disjoint {s : AllocState} (h : AllocInv c s) {g g' : Given}
    (hg : g ∈ s.given) (hg' : g' ∈ s.given) (hnode : g.nodeID = g'.nodeID) (hne : g ≠ g') :
    Disjoint (g.bytes c) (g'.bytes c) :=
  (h.inRange g hg).disjoint (h.inRange g' hg') fun hplace =>
    hne (h.eq_of_place hg hg' hnode hplace)

theorem Situation.waits {s : AllocState} {n : NodeId} {t : ThreadId} {th : AllocThread}
    (h : Situation c s n t th) (hw : th.waiting.isSome) : Waits th := by
  cases h with
  | fresh hno => rw [hno] at hw; cases hw
  | cutting _ hno => rw [hno] at hw; cases hw
  | asking h => exact h
  | answered _ h => exact h
  | refused h => exact h

/-- A situation is not changed by what happens to other threads. -/
theorem Situation.mono {s s' : AllocState} {n : NodeId} {t : ThreadId} {th : AllocThread}
    (h : Situation c s n t th) (hgiven : ∀ g ∈ s.given, g ∈ s'.given)
    (hchunk : s'.chunk n t = s.chunk n t)
    (hregions : ∀ r ∈ s'.regions, r ∈ s.regions ∨ ∀ g, g.To n t → r.chunk ≠ some g) :
    Situation c s' n t th := by
  have hholds : ∀ {g}, Holds s n t g → Holds s' n t g := fun ⟨hl, hg, ht⟩ =>
    ⟨hchunk.trans hl, hgiven _ hg, ht⟩
  cases h with
  | fresh hw hr ha => exact .fresh hw hr ha
  | cutting g hw hr hg hhead hnode hle hgb hcut =>
      refine .cutting g hw hr (hholds hg) hhead hnode hle hgb fun r hr hrg => ?_
      rcases hregions r hr with hold | hother
      · exact hcut r hold hrg
      · exact absurd hrg (hother g hg.2.2)
  | asking hw hr => exact .asking hw hr
  | answered g hw hr hg hnode hno =>
      refine .answered g hw hr (hholds hg) hnode fun r hr hrg => ?_
      rcases hregions r hr with hold | hother
      · exact hno r hold hrg
      · exact hother g hg.2.2 hrg
  | refused hw hr => exact .refused hw hr

namespace AllocInv

variable {s : AllocState} {n : NodeId} {t : ThreadId} {th : AllocThread} {g : Given}

theorem setThread (h : AllocInv c s) (hth : Situation c s n t th) :
    AllocInv c (s.setThread n t th) where
  carves := h.carves
  inRange := h.inRange
  below := h.below
  once := h.once
  cut := h.cut
  disjoint := h.disjoint
  thread := by
    intro n' t'
    have hsame : ∀ th', Situation c s n' t' th' → Situation c (s.setThread n t th) n' t' th' :=
      fun _ hs => hs.mono (fun _ hg => hg) rfl fun _ hr => .inl hr
    show Situation c _ n' t' (Function.update s.threads n (Function.update (s.threads n) t th) n' t')
    by_cases hown : n' = n ∧ t' = t
    · obtain ⟨rfl, rfl⟩ := hown
      rw [update_update_self]
      exact hsame _ hth
    · rw [update_update_of_ne _ _ hown]
      exact hsame _ (h.thread n' t')

/-- A thread cuts a region from its chunk. -/
theorem returned {res : GlobalAddress} {size : ℕ} {align : Bool} (h : AllocInv c s)
    (hg : Holds s n t g) (hw : th.waiting = none) (hr : th.reply = none)
    (hhead : th.alloc.head = ⟨g.addr c, g.nodeID⟩)
    (hcur : th.alloc.cur = ⟨res.addr + size, g.nodeID⟩) (hgb : res.addr + size ≤ 40 * gb)
    (hnode : res.nodeID = g.nodeID) (hle : g.addr c ≤ res.addr)
    (hfit : res.addr + size ≤ g.addr c + kChunkSize)
    (hal : align = true → res.addr % lineSize = 0)
    (hfree : ∀ r ∈ s.regions, r.chunk = some g → r.addr.addr + r.size ≤ res.addr) :
    AllocInv c ((s.setThread n t th).returned n t res size align) := by
  have hcut : Region.Cut c s.given ⟨res, size, align, n, t, s.chunk n t⟩ g :=
    ⟨hg.1, hg.2.1, hg.2.2, hnode, hle, hfit, hal⟩
  have hmem : ∀ r ∈ s.regions ++ [⟨res, size, align, n, t, s.chunk n t⟩],
      r ∈ s.regions ∨ r = ⟨res, size, align, n, t, s.chunk n t⟩ := fun r hr =>
    (List.mem_append.mp hr).imp_right List.mem_singleton.mp
  refine ⟨h.carves, h.inRange, h.below, h.once, fun n' t' => ?_, fun r hr => ?_, ?_⟩
  · show Situation c _ n' t' (Function.update s.threads n (Function.update (s.threads n) t th) n' t')
    by_cases hown : n' = n ∧ t' = t
    · obtain ⟨rfl, rfl⟩ := hown
      rw [update_update_self]
      refine .cutting g hw hr ⟨hg.1, hg.2.1, hg.2.2⟩ hhead (by rw [hcur]) ?_ (by rw [hcur]; exact hgb)
        fun r hr hrg => ?_
      · rw [hcur]
        exact hle.trans (Nat.le_add_right _ _)
      · rw [hcur]
        rcases hmem r hr with hold | rfl
        · exact (hfree r hold hrg).trans (Nat.le_add_right _ _)
        · exact le_rfl
    · rw [update_update_of_ne _ _ hown]
      refine (h.thread n' t').mono (fun _ hg => hg) rfl fun r hr => (hmem r hr).imp_right ?_
      rintro rfl g' hto hrg
      cases hg.1.symm.trans hrg
      exact hown ⟨hto.1.symm.trans hg.2.2.1, hto.2.symm.trans hg.2.2.2⟩
  · rcases hmem r hr with hold | rfl
    · exact h.cut r hold
    · exact ⟨g, hcut⟩
  · refine List.pairwise_append.mpr ⟨h.disjoint, List.pairwise_singleton _ _, ?_⟩
    rintro r hr _ hnew
    rw [List.mem_singleton.mp hnew]
    intro hsame
    obtain ⟨g', hr'⟩ := h.cut r hr
    by_cases hgg : g' = g
    · subst hgg
      rw [Region.bytes, Region.bytes, Set.Ico_disjoint_Ico]
      exact (min_le_left _ _).trans ((hfree r hr hr'.chunk).trans (le_max_right _ _))
    · refine (h.given_disjoint hr'.mem hg.2.1 ?_ hgg).mono hr'.subset hcut.subset
      exact hr'.nodeID.symm.trans (hsame.trans hnode)

/-- An agent answers. -/
theorem serve {k : AgentId} {s' : AllocState} (h : AllocInv c s)
    (hs : s.serveStep c n t k = some s') : AllocInv c s' := by
  simp only [AllocState.serveStep, Option.ite_none_right_eq_some, Option.map_eq_some_iff] at hs
  obtain ⟨⟨hwait, -, hk⟩, ⟨a, r⟩, halloc, rfl⟩ := hs
  replace hwait : Waits (s.threads n t) := (h.thread n t).waits hwait
  obtain ⟨hcarve, hr⟩ := (h.carves _ k hk).alloc hk (s.threads n t).nextAllocatorNode n t halloc
  generalize hd : (s.threads n t).nextAllocatorNode = d at *
  have hcarves : ∀ d' k', k'.val < c.systs → (Function.update s.chunckAlloc d
      (Function.update (s.chunckAlloc d) k a) d' k').Carves c k' := by
    intro d' k' hk'
    by_cases hown : d' = d ∧ k' = k
    · obtain ⟨rfl, rfl⟩ := hown
      rw [update_update_self]
      exact hcarve
    · rw [update_update_of_ne _ _ hown]
      exact h.carves d' k' hk'
  rcases hr with ⟨rfl, rfl⟩ | ⟨hrange, htail, rfl⟩
  · subst hd
    have hsame : ∀ d, Function.update s.chunckAlloc d
        (Function.update (s.chunckAlloc d) k (s.chunckAlloc d k)) = s.chunckAlloc := by
      intro d
      rw [Function.update_eq_self, Function.update_eq_self]
    have hset : AllocInv c (s.setThread n t { s.threads n t with reply := some none }) :=
      h.setThread (.refused hwait rfl)
    simp only [hsame, Option.map_none, Option.toList_none, List.append_nil, Option.isSome_none,
      Bool.false_eq_true, if_false]
    exact hset
  · simp only [Option.map_some, Option.toList_some, Option.isSome_some, if_true]
    generalize hg : (⟨d, k, (s.chunckAlloc d k).bitmapTail, n, t⟩ : Given) = g at *
    have hnew : ∀ g' ∈ s.given, Given.Apart g' g := by
      intro g' hg' hplace
      have hlt := h.below g' hg'
      rw [hplace.1, hplace.2.1, hplace.2.2, ← hg] at hlt
      exact Nat.lt_irrefl _ hlt
    have hno : ∀ r ∈ s.regions, r.chunk ≠ some g := by
      intro r hr hrg
      obtain ⟨g', hcut⟩ := h.cut r hr
      cases hcut.chunk.symm.trans hrg
      exact hnew g hcut.mem ⟨rfl, rfl, rfl⟩
    have hgiven : ∀ g' ∈ s.given, g' ∈ s.given ++ [g] := fun _ => List.mem_append_left _
    refine ⟨hcarves, fun g' hg' => ?_, fun g' hg' => ?_, ?_, fun n' t' => ?_, fun r hr => ?_,
      h.disjoint⟩
    · rcases List.mem_append.mp hg' with hold | hmem
      · exact h.inRange g' hold
      · rwa [List.mem_singleton.mp hmem]
    · show g'.number < (Function.update s.chunckAlloc d (Function.update (s.chunckAlloc d) k a)
        g'.nodeID g'.agent).bitmapTail
      rcases List.mem_append.mp hg' with hold | hmem
      · refine Nat.lt_of_lt_of_le (h.below g' hold) ?_
        by_cases hown : g'.nodeID = d ∧ g'.agent = k
        · rw [hown.1, hown.2, update_update_self, htail]
          exact Nat.le_succ _
        · rw [update_update_of_ne _ _ hown]
      · rw [List.mem_singleton.mp hmem, ← hg, update_update_self, htail]
        exact Nat.lt_succ_self _
    · refine List.pairwise_append.mpr ⟨h.once, List.pairwise_singleton _ _, fun g' hg' e he => ?_⟩
      rw [List.mem_singleton.mp he]
      exact hnew g' hg'
    · show Situation c _ n' t' (Function.update s.threads n (Function.update (s.threads n) t _)
        n' t')
      by_cases hown : n' = n ∧ t' = t
      · obtain ⟨rfl, rfl⟩ := hown
        rw [update_update_self]
        refine .answered g hwait rfl ⟨update_update_self _ _ _ _, ?_, ?_⟩ ?_ hno
        · exact List.mem_append_right _ (List.mem_singleton_self g)
        · rw [← hg]
          exact ⟨rfl, rfl⟩
        · rw [← hg]
      · rw [update_update_of_ne _ _ hown]
        exact (h.thread n' t').mono hgiven (update_update_of_ne _ _ hown) fun r hr => .inl hr
    · obtain ⟨g', hcut⟩ := h.cut r hr
      exact ⟨g', { hcut with mem := hgiven _ hcut.mem }⟩

/-- A thread asks for memory. -/
theorem malloc {size : ℕ} {align : Bool} {s' : AllocState} (h : AllocInv c s)
    (hs : s.mallocStep c n t size align = some s') : AllocInv c s' := by
  simp only [AllocState.mallocStep, Option.ite_none_right_eq_some, Option.map_eq_some_iff] at hs
  obtain ⟨⟨-, hwait, hpos, hsize⟩, ⟨a, res, need⟩, hm, rfl⟩ := hs
  have hask : (s.threads n t).reply = none → AllocInv c (s.setThread n t
      { s.threads n t with alloc := a, waiting := some (size, align) }) := fun hr =>
    h.setThread (.asking ⟨size, align, rfl, hsize⟩ hr)
  cases h.thread n t with
  | fresh _ hr ha =>
      rw [ha] at hm
      obtain ⟨-, -, -, -, hneed⟩ := LocalAllocator.malloc_spec hm (by
        simp only [LocalAllocator.new, lineSize, kChunkSize, mb] at hsize ⊢
        omega) (by simp only [LocalAllocator.new, kChunkSize, mb]; omega)
      cases need with
      | true => exact hask hr
      | false => exact absurd rfl (hneed rfl).1
  | cutting g _ hr hg hhead hnode hle hgb hcut =>
      obtain ⟨hn, hge, hend, hal, hneed⟩ := LocalAllocator.malloc_spec hm (by
        simp only [lineSize, kChunkSize, gb, mb] at hsize hgb ⊢
        omega) (by
        rw [hhead]
        simp only [kChunkSize, gb, mb] at hgb ⊢
        omega)
      cases need with
      | true => exact hask hr
      | false =>
          obtain ⟨-, hfit, rfl⟩ := hneed rfl
          rw [hhead] at hfit
          exact h.returned hg hwait hr hhead (by rw [hnode]) hend (hn.trans hnode)
            (hle.trans hge) hfit hal fun r hr hrg => (hcut r hr hrg).trans hge
  | asking hw | answered _ hw | refused hw =>
      obtain ⟨_, _, hw, -⟩ := hw
      cases hwait.symm.trans hw

/-- A thread goes on with its new chunk. -/
theorem finish {s' : AllocState} (hroom : c.gmemSizePerNode.toNat + mb ≤ 2 ^ 64)
    (h : AllocInv c s) (hs : s.finishStep c n t = some s') : AllocInv c s' := by
  simp only [AllocState.finishStep] at hs
  split at hs
  next size align addr hwait hreply =>
    obtain ⟨⟨a, res, need⟩, hm, hret⟩ := Option.bind_eq_some_iff.mp hs
    cases need with
    | true => cases hret
    | false =>
        cases hret
        cases h.thread n t with
        | answered g hw hr hg hnext hno =>
            cases hreply.symm.trans hr
            obtain ⟨_, _, hw, hle⟩ := hw
            cases hwait.symm.trans hw
            have hend := (h.inRange g hg.2.1).end_le_gmem
            obtain ⟨hn, hge, hgb, hal, hneed⟩ := LocalAllocator.malloc_spec hm (by
              simp only [LocalAllocator.setChunck, lineSize, kChunkSize, mb] at *
              omega) (by
              simp only [LocalAllocator.setChunck, mb] at *
              omega)
            obtain ⟨-, hfit, rfl⟩ := hneed rfl
            refine h.returned hg rfl rfl ?_ ?_ hgb (hn.trans hnext) hge hfit hal fun r hr hrg =>
              absurd hrg (hno r hr)
            · rw [← hnext]
              rfl
            · rw [← hnext]
              rfl
        | fresh hw => cases hwait.symm.trans hw
        | cutting _ hw => cases hwait.symm.trans hw
        | asking _ hr => cases hreply.symm.trans hr
        | refused _ hr => cases hreply.symm.trans hr
  next => cases hs

theorem of_init {s : AllocState} (h : s.Init c) : AllocInv c s where
  carves := fun d k hk => by
    rw [h.chunckAlloc]
    exact .new hk
  inRange := by rw [h.given]; nofun
  below := by rw [h.given]; nofun
  once := by rw [h.given]; exact .nil
  thread := fun n t => .fresh (h.waiting n t) (h.reply n t) (h.alloc n t)
  cut := by rw [h.regions]; nofun
  disjoint := by rw [h.regions]; exact .nil

theorem of_reachable {s : AllocState} (hroom : c.gmemSizePerNode.toNat + mb ≤ 2 ^ 64)
    (h : (allocation c).Reachable s) : AllocInv c s := by
  refine h.invariant (fun _ => of_init) fun s a s' _ hinv hs => ?_
  cases a with
  | malloc n t size align => exact hinv.malloc hs
  | serve n t k => exact hinv.serve hs
  | finish n t => exact hinv.finish hroom hs

end AllocInv

end Invariant

theorem DSMConfig.gmem_room {uNodeNum uAppt uSyst : BitVec 32} {uGmem uCache : BitVec 64}
    {c : DSMConfig} (h : DSMConfig.new uNodeNum uAppt uSyst uGmem uCache = some c) :
    c.gmemSizePerNode.toNat + mb ≤ 2 ^ 64 := by
  rw [(new_eq_some h).1]
  exact roundSize_room uGmem

/-- What has been allocated on a node is pairwise disjoint, and so are the chunks that were given
away.  Every region lies in a chunk of its thread, within the memory of the node, and at the start
of a line if that was asked for. -/
theorem allocated_disjoint {uNodeNum uAppt uSyst : BitVec 32} {uGmem uCache : BitVec 64}
    {c : DSMConfig} (hc : DSMConfig.new uNodeNum uAppt uSyst uGmem uCache = some c)
    {s : AllocState} (h : (allocation c).Reachable s) :
    (s.regions.Pairwise fun r r' => r.addr.nodeID = r'.addr.nodeID →
        Disjoint r.bytes r'.bytes) ∧
      (s.given.Pairwise fun g g' => g.nodeID = g'.nodeID →
        Disjoint (g.bytes c) (g'.bytes c)) ∧
      ∀ r ∈ s.regions,
        (∃ g ∈ s.given, g.To r.toNode r.toThread ∧ g.nodeID = r.addr.nodeID ∧
          r.bytes ⊆ g.bytes c) ∧
        r.bytes ⊆ Set.Ico 0 c.gmemSizePerNode.toNat ∧
        (r.aligned = true → r.addr.addr % lineSize = 0) := by
  have hinv : AllocInv c s := .of_reachable (DSMConfig.gmem_room hc) h
  refine ⟨hinv.disjoint, ?_, fun r hr => ?_⟩
  · refine hinv.once.imp_of_mem fun {g g'} hg hg' hapart hnode => ?_
    exact (hinv.inRange g hg).disjoint (hinv.inRange g' hg') fun hplace => hapart ⟨hnode, hplace⟩
  · obtain ⟨g, hcut⟩ := hinv.cut r hr
    refine ⟨⟨g, hcut.mem, hcut.owner, hcut.nodeID.symm, hcut.subset⟩, ?_, hcut.aligned⟩
    exact Set.Ico_subset_Ico (Nat.zero_le _)
      (hcut.upper.trans (hinv.inRange g hcut.mem).end_le_gmem)

/-- Two nodes with two agents each. -/
def pairConfig : DSMConfig :=
  .compute 2 2 2 (.ofNat 64 (200 * mb)) (.ofNat 64 (200 * mb))

theorem pairConfig_accepted :
    DSMConfig.new 2 2 2 (.ofNat 64 (200 * mb)) (.ofNat 64 (200 * mb)) = some pairConfig := by
  decide

/-- Two threads of node 0 have memory of node 1, from different agents. -/
theorem allocated_disjoint_pair : ∃ s : AllocState,
    s.regions.map (fun r => (r.addr, r.size)) =
        [(⟨0, 1⟩, 100), (⟨105381888, 1⟩, 5000), (⟨4096, 1⟩, 4096)] ∧
      s.regions.Pairwise fun r r' => r.addr.nodeID = r'.addr.nodeID →
        Disjoint r.bytes r'.bytes := by
  obtain ⟨s, hs, hv⟩ := TransitionSystem.exists_reachable (T := allocation pairConfig)
    (f := fun s => s.regions.map fun r => (r.addr, r.size))
    (v := [(⟨0, 1⟩, 100), (⟨105381888, 1⟩, 5000), (⟨4096, 1⟩, 4096)])
    [.malloc 0 0 100 true, .serve 0 0 0, .finish 0 0, .malloc 0 1 5000 false, .serve 0 1 1,
      .finish 0 1, .malloc 0 0 4096 true] (AllocState.initial_init pairConfig 1 (by decide)) (by decide)
  exact ⟨s, hv, (allocated_disjoint pairConfig_accepted hs).1⟩


end Ting
