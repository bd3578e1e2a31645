/-
# `Ting.Soft.SlabRealloc` — what `sb_realloc` keeps

A block whose new size is of another class moves: another block is taken, the content is to be
copied, and the block is freed.  The pointer of the new block has the name of the parameter, and so
the copy is of the new block onto itself.

Memory is the bytes of the arena, which the allocator does not write but for this copy.
-/
import Ting.Soft.SlabRuns

namespace Ting

namespace Slab

open SlabAllocator (itemSizeMax powerLargestMax)

/-- A byte for every address. -/
abbrev Bytes := ℕ → BitVec 8

/-- `memcpy`. -/
def memcpy (m : Bytes) (dst src n : ℕ) : Bytes := fun a =>
  if dst ≤ a ∧ a < dst + n then m (src + (a - dst)) else m a

theorem memcpy_self (m : Bytes) (a n : ℕ) : memcpy m a a n = m := by
  funext x
  rw [memcpy]
  split
  next h => rw [Nat.add_sub_cancel' h.1]
  next => rfl

namespace Allocator

/-- `is_free`; `none` when the assertion fails. -/
def isFree (s : Allocator) (ptr : ℕ) : Option Bool :=
  (s.statsMap ptr).map fun it => (s.items it).slabsClsid = 0

/-- `sb_realloc`; `slabs_adjust_mem_requested` only counts.  The `ptr` of the branch that moves the
block is a new one, as it is in the source. -/
def sbRealloc (s : Allocator) (m : Bytes) (ptr : ℕ) (size : BitVec 64) :
    Except Fault (Allocator × Bytes × ℕ) :=
  if s.memLimit = 0 then .error .noMemory
  else if ptr = 0 then do
    let (s, ret) ← s.sbMalloc size
    .ok (s, m, ret)
  else
    match s.statsMap ptr with
    | none => .error .broken
    | some it1 =>
        let id1 := (s.items it1).slabsClsid
        let size1 := (s.items it1).size
        if id1 ≠ s.slabsClsid size1 then .error .broken
        else
          let size2 := size.toNat
          let id2 := s.slabsClsid size2
          if id1 = id2 then .ok (s.setItem it1 fun x => { x with size := size2 }, m, ptr)
          else if size1 = size2 then .error .broken
          else do
            let (s, ptr) ← s.doSlabsAlloc size2 id2
            match s.statsMap ptr with
            | none => .error .broken
            | some it2 =>
                let m :=
                  if size2 < size1 then memcpy m (s.items it2).data ptr size.toNat
                  else memcpy m (s.items it2).data ptr size1
                let s := s.setItem it1 fun x => { x with slabsClsid := 0 }
                let s ← s.doSlabsFree (s.items it1).data id1
                .ok (s, m, (s.items it2).data)

/-- The chunk that is the next to be taken of a class: the first of its free list, or the last of
the page that comes next. -/
def nextChunk (s : Allocator) (id : ℕ) : ℕ :=
  if (s.slabclass id).slCurr ≠ 0 then
    (s.slabclass id).slots.elim 0 fun it => (s.items it).data
  else s.memCurrent + ((s.slabclass id).perslab - 1) * (s.slabclass id).size

/-- What is claimed of a call of `sb_realloc` for a live block that had `old` bytes. -/
structure Kept (s : Allocator) (m : Bytes) (ptr old size : ℕ) (s' : Allocator) (m' : Bytes)
    (ret : ℕ) : Prop where
  live : s'.isFree ret = some false
  large : size ≤ (s'.slabclass (s'.classOf ret)).size
  content : ∀ i < min old size, m' (ret + i) = m (ptr + i)
  others : ∀ a, s.isFree a = some false → a ≠ ptr →
    a ≠ ret ∧ s'.isFree a = some false ∧ ∀ x ∈ s.bytes a, m' x = m x
  freed : ptr ≠ ret → s'.isFree ptr = some true
  /-- The free list of a class is that of its chunks that are not live. -/
  lists : ∀ i, ∃ l, Linked.Chain (fun it => (s'.items it).next) (s'.slabclass i).slots l ∧
    ∀ a, a ∈ l.map (fun it => (s'.items it).data) ↔
      s'.layout.IsChunk i a ∧ s'.isFree a = some true

end Allocator

/-! ## Runs with memory -/

/-- A run, and memory. -/
structure Image where
  run : Run
  mem : Bytes

inductive ImageCall
  | call (c : Call)
  | sbRealloc (ptr : ℕ) (size : BitVec 64)
  /-- A byte is written. -/
  | store (a : ℕ) (x : BitVec 8)

namespace Image

/-- A call that succeeds; only a live block is freed or reallocated. -/
def step : ImageCall → Image → Option Image
  | .call c, g => (Run.step c g.run).map fun r => ⟨r, g.mem⟩
  | .sbRealloc ptr size, g =>
      if ptr ∈ g.run.live.map Block.ptr then
        match g.run.alloc.sbRealloc g.mem ptr size with
        | .ok (s, m, ret) =>
            some ⟨⟨s, ⟨ret, size.toNat⟩ :: g.run.live.filter fun b => b.ptr ≠ ptr⟩, m⟩
        | .error _ => none
      else none
  | .store a x, g => some { g with mem := Function.update g.mem a x }

end Image

/-- The runs from an allocator that has handed out nothing, on any memory. -/
def images (s₀ : Allocator) : TransitionSystem Image ImageCall where
  init g := g.run = ⟨s₀, []⟩
  step := Image.step

theorem bind_eq_ok {ε α β : Type} {x : Except ε α} {f : α → Except ε β} {b : β} :
    x >>= f = .ok b ↔ ∃ a, x = .ok a ∧ f a = .ok b := by
  cases x with
  | error e => exact ⟨nofun, fun ⟨_, h, _⟩ => nomatch h⟩
  | ok a => exact ⟨fun h => ⟨a, rfl, h⟩, fun ⟨_, h, hf⟩ => by cases h; exact hf⟩

namespace Allocator

variable {s t : Allocator} {a c id it n ptr size x : ℕ} {m : Bytes}

/-! ## The items stay -/

/-- What `stats_map` has it keeps. -/
def Keeps (s t : Allocator) : Prop :=
  ∀ ⦃a it⦄, s.statsMap a = some it → t.statsMap a = some it

theorem Keeps.of_doSlabsFree (h : s.doSlabsFree ptr id = .ok t) : s.Keeps t := by
  intro a it ha
  simp only [doSlabsFree] at h
  split at h
  next => cases h
  next =>
    cases h
    rw [linkSlot_statsMap, itemAt]
    split
    next => exact ha
    next hnone =>
      refine (Function.update_of_ne ?_ _ _).trans ha
      rintro rfl
      rw [hnone] at ha
      cases ha

theorem Keeps.of_splitSlabPage (h : splitSlabPage id x ptr s = .ok t) : s.Keeps t := by
  induction x generalizing ptr s with
  | zero =>
    cases h
    exact fun _ _ ha => ha
  | succ x ih =>
    obtain ⟨u, hu, hrest⟩ := bind_eq_ok.mp h
    exact fun _ _ ha => ih hrest (Keeps.of_doSlabsFree hu ha)

/-- A page more: its chunks are free, and it is noted. -/
theorem doSlabsNewslab_eq_ok (h : s.doSlabsNewslab id = .ok t) :
    ∃ u, splitSlabPage id (s.slabclass id).perslab s.memCurrent { s with
        memCurrent := s.memCurrent + itemSizeMax
        memAvail := s.memAvail - itemSizeMax } = .ok u ∧
      t = { u.setClass id fun p => { p with slabList := p.slabList ++ [s.memCurrent] } with
        memMalloced := (u.memMalloced + itemSizeMax) % 2 ^ 64 } := by
  rw [doSlabsNewslab] at h
  split at h
  next => cases h
  next =>
    rw [memoryAllocate_page] at h
    split at h
    next => cases h
    next =>
      obtain ⟨_, hpage, h⟩ := bind_eq_ok.mp h
      cases hpage
      obtain ⟨u, hu, heq⟩ := bind_eq_ok.mp h
      cases heq
      exact ⟨u, hu, rfl⟩

theorem Keeps.of_doSlabsNewslab (h : s.doSlabsNewslab id = .ok t) : s.Keeps t := by
  obtain ⟨u, hu, rfl⟩ := doSlabsNewslab_eq_ok h
  exact fun _ _ ha => Keeps.of_splitSlabPage hu ha

theorem takeSlot_eq (h : s.takeSlot size id = .ok (t, a)) :
    t.statsMap = s.statsMap ∧ ∃ it, (s.slabclass id).slots = some it ∧ a = (s.items it).data := by
  rw [takeSlot] at h
  split at h
  next => cases h
  next it hit =>
    cases h
    refine ⟨unlinkSlot_statsMap, it, hit, ?_⟩
    rw [unlinkSlot_items (g := Item.data) fun _ _ => rfl, Function.update_self]

/-! ## The next chunk -/

theorem head_doSlabsFree (h : s.doSlabsFree ptr id = .ok t) :
    (∃ it, (t.slabclass id).slots = some it ∧ (t.items it).data = ptr) ∧
      (t.slabclass id).size = (s.slabclass id).size := by
  simp only [doSlabsFree] at h
  split at h
  next => cases h
  next =>
    cases h
    have hsize : ((s.itemAt ptr).1.slabclass id).size = (s.slabclass id).size := by
      rw [itemAt]
      split <;> rfl
    rw [linkSlot_slabclass, Function.update_self]
    refine ⟨⟨_, rfl, ?_⟩, hsize⟩
    rw [linkSlot_items (g := Item.data) fun _ _ => rfl, Function.update_self]

/-- The last chunk of a page is the first on the free list. -/
theorem head_splitSlabPage (h : splitSlabPage id (x + 1) ptr s = .ok t) :
    ∃ it, (t.slabclass id).slots = some it ∧
      (t.items it).data = ptr + x * (s.slabclass id).size := by
  induction x generalizing ptr s with
  | zero =>
    obtain ⟨u, hu, hrest⟩ := bind_eq_ok.mp h
    cases hrest
    rw [Nat.zero_mul, Nat.add_zero]
    exact (head_doSlabsFree hu).1
  | succ x ih =>
    obtain ⟨u, hu, hrest⟩ := bind_eq_ok.mp h
    rw [Nat.succ_mul, Nat.add_comm (x * _), ← Nat.add_assoc, ← (head_doSlabsFree hu).2]
    exact ih hrest

theorem head_doSlabsNewslab (h : s.doSlabsNewslab id = .ok t)
    (hpos : 0 < (s.slabclass id).perslab) : ∃ it, (t.slabclass id).slots = some it ∧
      (t.items it).data =
        s.memCurrent + ((s.slabclass id).perslab - 1) * (s.slabclass id).size := by
  obtain ⟨u, hu, rfl⟩ := doSlabsNewslab_eq_ok h
  obtain ⟨x, hx⟩ := Nat.exists_eq_succ_of_ne_zero hpos.ne'
  rw [hx] at hu ⊢
  obtain ⟨it, hslots, hdata⟩ := head_splitSlabPage hu
  refine ⟨it, ?_, hdata⟩
  simp only [setClass, Function.update_self]
  exact hslots

/-- What is taken is the next chunk. -/
theorem doSlabsAlloc_eq_ok (hpos : powerSmallest ≤ id → id ≤ s.powerLargest →
    0 < (s.slabclass id).perslab) (h : s.doSlabsAlloc size id = .ok (t, a)) :
    s.Keeps t ∧ a = s.nextChunk id := by
  rw [doSlabsAlloc] at h
  split at h
  next => cases h
  next hid =>
    split at h
    next => cases h
    next =>
      -- a page is made first if `sl_curr` is 0
      have hmade : ∃ u, s.Keeps u ∧ u.takeSlot size id = .ok (t, a) ∧
          ∃ it, (u.slabclass id).slots = some it ∧ (u.items it).data = s.nextChunk id := by
        dsimp only at h
        split at h
        next hcurr =>
          obtain ⟨u, hu, h⟩ := bind_eq_ok.mp h
          cases hu
          rw [if_pos hcurr] at h
          obtain ⟨-, it, hslots, -⟩ := takeSlot_eq h
          refine ⟨s, fun _ _ ha => ha, h, it, hslots, ?_⟩
          rw [nextChunk, if_pos hcurr, hslots]
          rfl
        next hcurr =>
          obtain ⟨u, hu, h⟩ := bind_eq_ok.mp h
          obtain ⟨it, hslots, hdata⟩ := head_doSlabsNewslab hu (hpos (by omega) (by omega))
          split at h
          next =>
            refine ⟨u, .of_doSlabsNewslab hu, h, it, hslots, ?_⟩
            rw [nextChunk, if_neg hcurr, hdata]
          next => cases h
      obtain ⟨u, hkeeps, htake, it, hslots, hdata⟩ := hmade
      obtain ⟨hstats, it', hslots', rfl⟩ := takeSlot_eq htake
      rw [hslots] at hslots'
      cases hslots'
      exact ⟨fun _ _ ha => hstats ▸ hkeeps ha, hdata⟩

/-! ## Live blocks -/

theorem isFree_eq (s : Allocator) (a : ℕ) :
    s.isFree a = (s.tag a).map fun x => decide (x.1 = 0) := by
  rw [isFree, tag, Option.map_map]
  rfl

theorem isFree_eq_true : s.isFree a = some true ↔ ∃ n, s.tag a = some (0, n) := by
  simp only [isFree_eq, Option.map_eq_some_iff, decide_eq_true_eq]
  constructor
  · rintro ⟨⟨c, n⟩, htag, rfl⟩
    exact ⟨n, htag⟩
  · rintro ⟨n, htag⟩
    exact ⟨(0, n), htag, rfl⟩

theorem isFree_eq_false : s.isFree a = some false ↔ ∃ x, s.held a = some x := by
  simp only [isFree_eq, Option.map_eq_some_iff, decide_eq_false_iff_not]
  constructor
  · rintro ⟨⟨c, n⟩, htag, hc⟩
    exact ⟨(c, n), held_eq_some.mpr ⟨htag, hc⟩⟩
  · rintro ⟨⟨c, n⟩, hheld⟩
    exact ⟨(c, n), held_eq_some.mp hheld⟩

/-- A chunk that is not held is free. -/
theorem Inv.isFree_of_chunk (h : s.Inv) (hchunk : s.layout.IsChunk id a) (hnot : s.held a = none) :
    s.isFree a = some true := by
  obtain ⟨free, -, hstock⟩ := h.stock
  obtain ⟨⟨c, n⟩, htag⟩ := Option.ne_none_iff_exists'.mp (hstock.known id a hchunk)
  rcases eq_or_ne c 0 with rfl | hc
  · exact isFree_eq_true.mpr ⟨n, htag⟩
  · rw [held_eq_some.mpr ⟨htag, hc⟩] at hnot
    cases hnot

theorem Inv.freeList (h : s.Inv) (i : ℕ) :
    ∃ l, Linked.Chain (fun it => (s.items it).next) (s.slabclass i).slots l ∧
      ∀ a, a ∈ l.map (fun it => (s.items it).data) ↔
        s.layout.IsChunk i a ∧ s.isFree a = some true := by
  obtain ⟨free, hlists, hstock⟩ := h.stock
  obtain ⟨l, hl, hmap⟩ := hlists.linked i
  refine ⟨l, hl, fun a => ?_⟩
  rw [hlists.known.map_data hmap, hstock.mem_free, isFree_eq_true]

/-! ## Moving a block -/

/-- A chunk that is held has a size of its class. -/
theorem Inv.resize (h : s.Inv) (ha : s.held a = some (c, n)) (hit : s.statsMap a = some it)
    (hsize : s.slabsClsid size = c) :
    (s.setItem it fun x => { x with size := size }).Inv ∧
      (s.setItem it fun x => { x with size := size }).held
        = Function.update s.held a (some (c, size)) := by
  obtain ⟨free, hlists, hstock⟩ := h.stock
  obtain ⟨htag, hc⟩ := held_eq_some.mp ha
  obtain ⟨it', hit', hclsid, -⟩ := item_of_held ha
  rw [hit] at hit'
  cases hit'
  obtain ⟨hretagged, hrtag⟩ := hlists.retag hit (f := fun x => { x with size := size })
    (fun _ => rfl) (fun _ => rfl)
  have hnew : ({ s.items it with size := size } : Item).tag = (c, size) :=
    Prod.ext hclsid rfl
  rw [hnew] at hrtag
  have hrstock := hstock.resize htag hc hsize
  rw [← hrtag] at hrstock
  refine ⟨h.of_stock rfl hretagged hrstock, ?_⟩
  rw [held_of_tag hrtag, if_neg hc]

/-- What a call that returns has done: the block stays in its class, or another chunk is taken and
it is freed.  Memory is as it was. -/
theorem Inv.sbRealloc_eq_ok (h : s.Inv) (hbase : s.memBase ≠ 0) (ha : s.held a = some (c, n))
    {size : BitVec 64} {m' : Bytes} {ret : ℕ} (hok : s.sbRealloc m a size = .ok (t, m', ret)) :
    t.Inv ∧ s.layout.Grows t.layout ∧ m' = m ∧
      (s.slabsClsid size.toNat = c ∧ ret = a ∧
          t.held = Function.update s.held a (some (c, size.toNat)) ∨
        s.slabsClsid size.toNat ≠ c ∧ ret = s.nextChunk (s.slabsClsid size.toNat) ∧
          s.held ret = none ∧ t.held = Function.update (Function.update s.held ret
            (some (s.slabsClsid size.toNat, size.toNat))) a none) := by
  obtain ⟨hchunk, hclass, hc⟩ := h.of_held ha
  obtain ⟨it, hit, hclsid, hitsize⟩ := item_of_held ha
  have hpos : a ≠ 0 := by
    have hmem := (hchunk.mem_arena h.classes h.arena).1
    simp only [layout] at hmem
    omega
  rw [sbRealloc, if_neg (h.memLimit_ne_zero hchunk), if_neg hpos, hit] at hok
  simp only [hclsid, hitsize, hclass, ne_eq, not_true, if_false] at hok
  split at hok
  next hsame =>
    cases hok
    obtain ⟨hinv, hheld⟩ := h.resize ha hit hsame.symm
    exact ⟨hinv, .refl _, rfl, .inl ⟨hsame.symm, rfl, hheld⟩⟩
  next hother =>
    split at hok
    next => cases hok
    next =>
      obtain ⟨⟨u, ptr⟩, hu, hok⟩ := bind_eq_ok.mp hok
      obtain ⟨hkeeps, hnext⟩ := doSlabsAlloc_eq_ok
        (fun h1 h2 => (h.classes.perslab_pos ⟨h1, h2⟩).1) hu
      rcases h.doSlabsAlloc (n := size.toNat) rfl with
        ⟨hno, -⟩ | ⟨u', ptr', hu', huinv, hulayout, -, hfresh, huheld⟩
      · rw [hno] at hu
        cases hu
      rw [hu'] at hu
      cases hu
      have hne : a ≠ ptr := by
        rintro rfl
        rw [ha] at hfresh
        cases hfresh
      have hgrows : s.layout.Grows u.layout := by
        rcases hulayout with heq | heq
        · rw [heq]
          exact .refl _
        · rw [heq]
          exact .addPage _ _
      have hua : u.held a = some (c, n) := by
        rw [huheld, Function.update_of_ne hne, ha]
      have hdata : ((u.setItem it fun x => { x with slabsClsid := 0 }).items it).data = a :=
        (setItem_items (g := Item.data) (f := fun x => { x with slabsClsid := 0 }) (fun _ => rfl)
          it).trans (huinv.data (hkeeps hit))
      obtain ⟨v, hv, hvinv, hvlayout, hvheld⟩ := huinv.release hua (hkeeps hit)
        (f := fun x => { x with slabsClsid := 0 }) (fun _ => rfl) (fun _ => rfl) rfl
      dsimp only at hok
      split at hok
      next => cases hok
      next it2 hit2 =>
        -- the source of the copy is its destination
        have hcopy : (if size.toNat < n then memcpy m (u.items it2).data ptr size.toNat
            else memcpy m (u.items it2).data ptr n) = m := by
          rw [huinv.data hit2, memcpy_self, memcpy_self, ite_self]
        rw [hcopy, hdata, hv] at hok
        cases hok
        rw [hvinv.data (Keeps.of_doSlabsFree hv hit2)]
        refine ⟨hvinv, hvlayout ▸ hgrows, rfl, .inr ⟨Ne.symm hother, hnext, hfresh, ?_⟩⟩
        rw [hvheld, huheld]

/-- The content is kept if the block stays in its class, and otherwise only if it happens to be in
the next chunk of the other class. -/
theorem Inv.kept_iff (h : s.Inv) (hbase : s.memBase ≠ 0) (ha : s.held a = some (c, n))
    {size : BitVec 64} {m' : Bytes} {ret : ℕ} (hok : s.sbRealloc m a size = .ok (t, m', ret))
    (old : ℕ) : s.Kept m a old size.toNat t m' ret ↔
      s.slabsClsid size.toNat = c ∨ ∀ i < min old size.toNat,
        m (s.nextChunk (s.slabsClsid size.toNat) + i) = m (a + i) := by
  obtain ⟨hinv, hgrows, rfl, hcases⟩ := h.sbRealloc_eq_ok hbase ha hok
  -- all but the content
  have hrest (hcontent : ∀ i < min old size.toNat, m' (ret + i) = m' (a + i)) :
      s.Kept m' a old size.toNat t m' ret := by
    have hret : t.held ret = some (s.slabsClsid size.toNat, size.toNat) := by
      rcases hcases with ⟨rfl, rfl, hheld⟩ | ⟨-, -, hfresh, hheld⟩
      · rw [hheld, Function.update_self]
      · rw [hheld, Function.update_of_ne, Function.update_self]
        rintro rfl
        rw [ha] at hfresh
        cases hfresh
    refine ⟨isFree_eq_false.mpr ⟨_, hret⟩, ?_, hcontent, fun b hb hne => ?_, fun hne => ?_,
      hinv.freeList⟩
    · rw [classOf_of_held hret]
      rcases slabsClsid_cases (n := size.toNat) h.classes with ⟨hzero, -⟩ | ⟨-, hle⟩
      · exact absurd hzero (held_eq_some.mp hret).2
      · exact hle.trans (congrFun hgrows.size _).ge
    · obtain ⟨x, hx⟩ := isFree_eq_false.mp hb
      rcases hcases with ⟨-, rfl, hheld⟩ | ⟨-, -, hfresh, hheld⟩
      · refine ⟨hne, isFree_eq_false.mpr ⟨x, ?_⟩, fun _ _ => rfl⟩
        rw [hheld, Function.update_of_ne hne, hx]
      · have hbret : b ≠ ret := by
          rintro rfl
          rw [hx] at hfresh
          cases hfresh
        refine ⟨hbret, isFree_eq_false.mpr ⟨x, ?_⟩, fun _ _ => rfl⟩
        rw [hheld, Function.update_of_ne hne, Function.update_of_ne hbret, hx]
    · rcases hcases with ⟨-, rfl, -⟩ | ⟨-, -, -, hheld⟩
      · exact absurd rfl hne
      · refine hinv.isFree_of_chunk (hgrows.chunk c a (h.of_held ha).1) ?_
        rw [hheld, Function.update_self]
  constructor
  · intro hkept
    rcases hcases with ⟨hsame, -⟩ | ⟨-, rfl, -⟩
    · exact .inl hsame
    · exact .inr hkept.content
  · rintro (hsame | hstale)
    · rcases hcases with ⟨-, rfl, -⟩ | ⟨hother, -⟩
      · exact hrest fun _ _ => rfl
      · exact absurd hsame hother
    · rcases hcases with ⟨-, rfl, -⟩ | ⟨-, rfl, -⟩
      · exact hrest fun _ _ => rfl
      · exact hrest hstale

end Allocator

/-! ## Runs -/

namespace Image

variable {g g' : Image} {base limit : ℕ}

theorem step_inv (h : g.run.Inv base limit) (hbase : base ≠ 0)
    (harena : base + limit + itemSizeMax ≤ 2 ^ 64) {call : ImageCall}
    (hs : Image.step call g = some g') : g'.run.Inv base limit := by
  cases call with
  | call c =>
    obtain ⟨r, hr, rfl⟩ := Option.map_eq_some_iff.mp hs
    exact h.step hbase harena hr
  | store a x =>
    cases hs
    exact h
  | sbRealloc ptr size =>
    obtain ⟨hlive, hs⟩ := Option.ite_none_right_eq_some.mp hs
    obtain ⟨b, hb, rfl⟩ := List.mem_map.mp hlive
    obtain ⟨c, n, hheld, -⟩ := h.books.held_of_live b hb
    split at hs
    next t m ret hok =>
      cases hs
      obtain ⟨hinv, hgrows, -, hcases⟩ :=
        h.alloc.sbRealloc_eq_ok (h.memBase.trans_ne hbase) hheld hok
      refine ⟨hinv, hgrows.memBase.trans h.memBase, hgrows.memLimit.trans h.memLimit, ?_⟩
      show Books _ t.held
      rcases hcases with ⟨-, rfl, htheld⟩ | ⟨-, -, hfresh, htheld⟩
      · have hbooks : Books (⟨b.ptr, size.toNat⟩ :: g.run.live.filter fun x => x.ptr ≠ b.ptr)
            (Function.update (Function.update g.run.alloc.held b.ptr none) b.ptr
              (some (c, size.toNat))) :=
          (h.books.give b.ptr).take (Function.update_self _ _ _) le_rfl
        rwa [Function.update_idem, ← htheld] at hbooks
      · have hne : ret ≠ b.ptr := by
          rintro rfl
          rw [hheld] at hfresh
          cases hfresh
        have hbooks : Books (⟨ret, size.toNat⟩ :: g.run.live) (Function.update g.run.alloc.held ret
            (some (g.run.alloc.slabsClsid size.toNat, size.toNat))) := h.books.take hfresh le_rfl
        have hgiven := hbooks.give b.ptr
        rwa [← htheld, List.filter_cons_of_pos (by exact decide_eq_true hne)] at hgiven
    next => cases hs

theorem inv_of_reachable {s₀ : Allocator} (hbase : base ≠ 0)
    (harena : base + limit + itemSizeMax ≤ 2 ^ 64) (h₀ : Run.Inv base limit ⟨s₀, []⟩)
    (hr : (images s₀).Reachable g) : g.run.Inv base limit := by
  refine TransitionSystem.Reachable.invariant (P := fun g => g.run.Inv base limit)
    (fun g hinit => ?_) (fun g call g' _ h hs => ?_) hr
  · rw [show g.run = ⟨s₀, []⟩ from hinit]
    exact h₀
  · exact step_inv h hbase harena hs

end Image

variable {factor : Factor} {limit : BitVec 64} {malloced base : ℕ} {s₀ : Allocator} {g : Image}

/-- A call for a live block that returns keeps the content if and only if the new size is of the
class that the block has, or the next chunk of the other class has the same bytes already.  `old` is
the old size, be it the one asked for or the one that the allocator has noted. -/
theorem realloc_keeps_iff (hf : factor.AtLeastOne)
    (h₀ : Allocator.slabsInit limit factor malloced base = .ok s₀)
    (harena : base + limit.toNat + itemSizeMax ≤ 2 ^ 64) (hr : (images s₀).Reachable g)
    {b : Block} (hb : b ∈ g.run.live) {size : BitVec 64} {t : Allocator} {m : Bytes} {ret : ℕ}
    (hok : g.run.alloc.sbRealloc g.mem b.ptr size = .ok (t, m, ret)) (old : ℕ) :
    g.run.alloc.Kept g.mem b.ptr old size.toNat t m ret ↔
      g.run.alloc.slabsClsid size.toNat = g.run.alloc.classOf b.ptr ∨
        ∀ i < min old size.toNat,
          g.mem (g.run.alloc.nextChunk (g.run.alloc.slabsClsid size.toNat) + i)
            = g.mem (b.ptr + i) := by
  obtain ⟨hinv, hmem, hlimit, hbase, hheld⟩ := Allocator.Inv.of_slabsInit hf h₀
  have h := Image.inv_of_reachable hbase harena ⟨hinv, hmem, hlimit, List.nodup_nil, nofun,
    fun a x ha => by rw [hheld a] at ha; cases ha⟩ hr
  obtain ⟨c, n, hb, -⟩ := h.books.held_of_live b hb
  rw [Allocator.classOf_of_held hb]
  exact h.alloc.kept_iff (h.memBase.trans_ne hbase) hb hok old


/-- What a run with memory that is all zero shows. -/
theorem exists_image {ν : Type} {calls : List ImageCall} {f : Image → Option ν} {v : ν}
    (hrun : (doubling.toOption.bind fun s =>
      ((images s).run calls ⟨⟨s, []⟩, fun _ => 0⟩).bind f) = some v) :
    ∃ s₀ g, doubling = .ok s₀ ∧ (images s₀).Reachable g ∧ f g = some v := by
  obtain ⟨s₀, hs₀, hrun⟩ := Option.bind_eq_some_iff.mp hrun
  obtain ⟨g, hg, hv⟩ := Option.bind_eq_some_iff.mp hrun
  have hinit : (images s₀).init ⟨⟨s₀, []⟩, fun _ => 0⟩ := rfl
  exact ⟨s₀, g, toOption_eq_some.mp hs₀, .of_run (.init hinit) hg, hv⟩

/-- A block of 48 bytes that is made smaller stays where it is. -/
theorem realloc_keeps_smaller : ∃ s₀ g t m, doubling = .ok s₀ ∧ (images s₀).Reachable g ∧
    g.run.live = [⟨8128, 48⟩] ∧ g.run.alloc.sbRealloc g.mem 8128 40 = .ok (t, m, 8128) ∧
    g.run.alloc.Kept g.mem 8128 48 40 t m 8128 := by
  have hrun : (doubling.toOption.bind fun s => ((images s).run [.call (.sbMalloc 48)]
      ⟨⟨s, []⟩, fun _ => 0⟩).bind fun g => (g.run.alloc.sbRealloc g.mem 8128 40).toOption.map
        fun x => (g.run.live, g.run.alloc.slabsClsid 40, g.run.alloc.classOf 8128, x.2.2))
        = some ([⟨8128, 48⟩], 1, 1, 8128) := by
    decide +kernel
  obtain ⟨s₀, g, h₀, hr, hv⟩ := exists_image hrun
  obtain ⟨⟨t, m, ret⟩, hok, hv⟩ := Option.map_eq_some_iff.mp hv
  simp only [Prod.mk.injEq] at hv
  obtain ⟨hlive, hclsid, hclass, rfl⟩ := hv
  have hb : (⟨8128, 48⟩ : Block) ∈ g.run.live := by
    rw [hlive]
    exact List.mem_singleton_self _
  have hok := toOption_eq_some.mp hok
  refine ⟨s₀, g, t, m, h₀, hr, hlive, hok, ?_⟩
  exact (realloc_keeps_iff one_le_two h₀ (by decide) hr hb hok 48).mpr
    (.inl (hclsid.trans hclass.symm))

/-- A block of 48 bytes that grows by one has another first byte. -/
theorem realloc_loses : ∃ s₀ g t m, doubling = .ok s₀ ∧ (images s₀).Reachable g ∧
    g.run.live = [⟨8128, 48⟩] ∧ g.run.alloc.sbRealloc g.mem 8128 49 = .ok (t, m, 12128) ∧
    ¬ g.run.alloc.Kept g.mem 8128 48 49 t m 12128 := by
  have hrun : (doubling.toOption.bind fun s =>
      ((images s).run [.call (.sbMalloc 48), .store 8128 1]
        ⟨⟨s, []⟩, fun _ => 0⟩).bind fun g => (g.run.alloc.sbRealloc g.mem 8128 49).toOption.map
          fun x => (g.run.live, g.mem 8128, x.2.1 12128, x.2.2))
        = some ([⟨8128, 48⟩], 1, 0, 12128) := by
    decide +kernel
  obtain ⟨s₀, g, h₀, hr, hv⟩ := exists_image hrun
  obtain ⟨⟨t, m, ret⟩, hok, hv⟩ := Option.map_eq_some_iff.mp hv
  simp only [Prod.mk.injEq] at hv
  obtain ⟨hlive, hold, hnew, rfl⟩ := hv
  refine ⟨s₀, g, t, m, h₀, hr, hlive, toOption_eq_some.mp hok, fun hkept => ?_⟩
  have hcontent := hkept.content 0 (by decide)
  rw [Nat.add_zero, Nat.add_zero, hold, hnew] at hcontent
  exact absurd hcontent (by decide)

end Slab

end Ting
