/-
# `Ting.Soft.SlabRuns` — live blocks never overlap

A run makes calls of the allocator, each of which succeeds, and frees only what is live.  Its live
blocks are the chunks that are held, and what is claimed of them follows from where the chunks are.

The arena must not reach into the last line of the address space, as no memory of a process does:
a block size that is an address there would make `ALIGN` overflow.
-/
import Ting.Soft.SlabBlocks
import Mathlib.Order.Interval.Set.Disjoint

namespace Ting

namespace Slab

open SlabAllocator (itemSizeMax powerLargestMax)

namespace Allocator

variable {s t : Allocator} {a c n : ℕ} {size block : BitVec 64}

/-- The class that `stats_map` leads to. -/
def classOf (s : Allocator) (ptr : ℕ) : ℕ :=
  ((s.statsMap ptr).map fun it => (s.items it).slabsClsid).getD 0

/-- The bytes of a block: as many as its class has. -/
def bytes (s : Allocator) (ptr : ℕ) : Set ℕ :=
  Set.Ico ptr (ptr + (s.slabclass (s.classOf ptr)).size)

theorem classOf_of_held (h : s.held a = some (c, n)) : s.classOf a = c := by
  obtain ⟨it, hit, hx⟩ := Option.map_eq_some_iff.mp (held_eq_some.mp h).1
  rw [classOf, hit]
  exact congrArg Prod.fst hx

/-- What a call that takes a block of a size does when it succeeds. -/
structure Took (s t : Allocator) (size ret : ℕ) : Prop where
  inv : t.Inv
  layout : t.layout = s.layout ∨ ∃ id, t.layout = s.layout.addPage id
  chunk : t.layout.IsChunk (s.slabsClsid size) ret
  fresh : s.held ret = none
  held : t.held = Function.update s.held ret (some (s.slabsClsid size, size))

theorem Took.grows {ret : ℕ} (h : s.Took t n ret) : s.layout.Grows t.layout := by
  rcases h.layout with heq | ⟨id, heq⟩
  · rw [heq]
    exact .refl _
  · rw [heq]
    exact .addPage _ _

theorem Inv.sbMalloc (h : s.Inv) (size : BitVec 64) :
    s.sbMalloc size = .error .noMemory ∧ (Requested size → ¬ s.layout.HasPage) ∨
      ∃ t ret, s.sbMalloc size = .ok (t, ret) ∧ s.Took t size.toNat ret := by
  rw [Allocator.sbMalloc]
  split
  next hlimit =>
    refine .inl ⟨rfl, fun _ hpage => ?_⟩
    have havail := hpage.2.1
    have hroom := h.arena.room
    obtain ⟨k, hk⟩ := h.arena.used
    have hzero : s.layout.memLimit = 0 := hlimit
    simp only [itemSizeMax, lineSize] at havail
    omega
  next =>
    rcases h.doSlabsAlloc rfl with ⟨hno, hpage⟩ | ⟨t, ret, ht, hinv, hlayout, hchunk, hnone, hheld⟩
    · refine .inl ⟨hno, fun hsize => hpage ?_⟩
      rcases slabsClsid_cases (n := size.toNat) h.classes with ⟨-, hbad⟩ | ⟨hid, -⟩
      · rcases hbad with hbad | hbad
        · exact absurd hsize.1 (by omega)
        · exact absurd hsize.2 (by omega)
      · exact hid
    · exact .inr ⟨t, ret, ht, hinv, hlayout.imp_right fun hx => ⟨_, hx⟩, hchunk, hnone, hheld⟩

/-- Room for a line beyond the arena. -/
def Below (s : Allocator) : Prop := s.memBase ≠ 0 ∧ s.memBase + s.memLimit + itemSizeMax ≤ 2 ^ 64

/-- Of the assertions only the last can fail. -/
theorem Inv.sbAlignedMalloc (h : s.Inv) (hb : s.Below) (hsize : Requested size)
    (block : BitVec 64) :
    s.sbAlignedMalloc size block = .error .noMemory ∨
      ∃ t ret, s.Took t (align size block).toNat ret ∧
        (ret % block.toNat = 0 ∧ s.sbAlignedMalloc size block = .ok (t, ret) ∧
            size.toNat ≤ (align size block).toNat ∨
          ret % block.toNat ≠ 0 ∧ s.sbAlignedMalloc size block = .error .misaligned) := by
  rw [Allocator.sbAlignedMalloc]
  dsimp only
  split
  next => exact .inl rfl
  next =>
    rcases h.doSlabsAlloc (n := (align size block).toNat) rfl with
      ⟨hno, -⟩ | ⟨t, ret, ht, hinv, hlayout, hchunk, hnone, hheld⟩
    · left
      rw [hno]
      rfl
    · right
      have htook : s.Took t (align size block).toNat ret :=
        ⟨hinv, hlayout.imp_right fun hx => ⟨_, hx⟩, hchunk, hnone, hheld⟩
      have hgrows := htook.grows
      refine ⟨t, ret, htook, ?_⟩
      rw [ht]
      show (_ ∧ (if _ then _ else _) = _ ∧ _) ∨ (_ ∧ (if _ then _ else _) = _)
      by_cases hret : ret % block.toNat = 0
      · left
        refine ⟨hret, if_pos hret, le_align ?_⟩
        -- the block size divides an address of the arena, so it is well below the overflow
        obtain ⟨hlow, hhigh⟩ := hchunk.mem_arena hinv.classes hinv.arena
        have hroom := hinv.arena.room
        rw [hgrows.memBase] at hlow hroom
        rw [hgrows.memLimit] at hroom
        obtain ⟨hbase, hbelow⟩ := hb
        have hpos : 0 < ret := (Nat.pos_of_ne_zero hbase).trans_le hlow
        have hblock : block.toNat ≤ ret := Nat.le_of_dvd hpos (Nat.dvd_of_mod_eq_zero hret)
        have hle := hsize.2
        have hne : block.toNat ≠ 0 := fun hx => by
          rw [hx, Nat.mod_zero] at hret
          exact hpos.ne' hret
        have hsub : (block - 1).toNat = block.toNat - 1 :=
          BitVec.toNat_sub_of_le (Nat.pos_of_ne_zero hne)
        simp only [layout] at hlow hhigh hroom
        omega
      · exact .inr ⟨hret, if_neg hret⟩

end Allocator

/-! ## The blocks of a run -/

/-- The live blocks are the chunks that are held, each once and for no more than its size. -/
structure Books (live : List Block) (held : ℕ → Option (ℕ × ℕ)) : Prop where
  nodup : (live.map Block.ptr).Nodup
  held_of_live : ∀ b ∈ live, ∃ c n, held b.ptr = some (c, n) ∧ b.size ≤ n
  live_of_held : ∀ a x, held a = some x → a ∈ live.map Block.ptr

namespace Books

variable {live : List Block} {held : ℕ → Option (ℕ × ℕ)} {ptr size c n : ℕ}

theorem take (h : Books live held) (hfresh : held ptr = none) (hle : size ≤ n) :
    Books (⟨ptr, size⟩ :: live) (Function.update held ptr (some (c, n))) := by
  have hother : ∀ b ∈ live, b.ptr ≠ ptr := by
    rintro b hb rfl
    obtain ⟨c', m, hm, -⟩ := h.held_of_live b hb
    rw [hfresh] at hm
    cases hm
  refine ⟨List.nodup_cons.mpr ⟨fun hmem => ?_, h.nodup⟩, fun b hb => ?_, fun a x ha => ?_⟩
  · obtain ⟨b, hb, heq⟩ := List.mem_map.mp hmem
    exact hother b hb heq
  · rcases List.mem_cons.mp hb with rfl | hb
    · exact ⟨c, n, Function.update_self _ _ _, hle⟩
    · rw [Function.update_of_ne (hother b hb)]
      exact h.held_of_live b hb
  · rcases eq_or_ne a ptr with rfl | hne
    · exact List.mem_cons_self
    · rw [Function.update_of_ne hne] at ha
      exact List.mem_cons_of_mem _ (h.live_of_held a x ha)

theorem give (h : Books live held) (ptr : ℕ) :
    Books (live.filter fun b => b.ptr ≠ ptr) (Function.update held ptr none) := by
  refine ⟨h.nodup.sublist (List.filter_sublist.map _), fun b hb => ?_, fun a x ha => ?_⟩
  · obtain ⟨hb, hne⟩ := List.mem_filter.mp hb
    rw [Function.update_of_ne (of_decide_eq_true hne)]
    exact h.held_of_live b hb
  · rcases eq_or_ne a ptr with rfl | hne
    · rw [Function.update_self] at ha
      cases ha
    · rw [Function.update_of_ne hne] at ha
      obtain ⟨b, hb, rfl⟩ := List.mem_map.mp (h.live_of_held a x ha)
      exact List.mem_map.mpr ⟨b, List.mem_filter.mpr ⟨hb, decide_eq_true hne⟩, rfl⟩

end Books

namespace Run

variable {r r' : Run} {base limit : ℕ} {s₀ t : Allocator}

/-- What holds of every run on an arena. -/
structure Inv (base limit : ℕ) (r : Run) : Prop where
  alloc : r.alloc.Inv
  memBase : r.alloc.memBase = base
  memLimit : r.alloc.memLimit = limit
  books : Books r.live r.alloc.held

theorem Inv.take (h : r.Inv base limit) {size ret : ℕ} {want : BitVec 64}
    (hle : want.toNat ≤ size) (ht : r.alloc.Took t size ret) :
    Inv base limit ⟨t, ⟨ret, want.toNat⟩ :: r.live⟩ := by
  refine ⟨ht.inv, ht.grows.memBase.trans h.memBase, ht.grows.memLimit.trans h.memLimit, ?_⟩
  show Books _ t.held
  rw [ht.held]
  exact h.books.take ht.fresh hle

theorem Inv.below (h : r.Inv base limit) (hbase : base ≠ 0)
    (harena : base + limit + itemSizeMax ≤ 2 ^ 64) : r.alloc.Below := by
  rw [Allocator.Below, h.memBase, h.memLimit]
  exact ⟨hbase, harena⟩

theorem Inv.step (h : r.Inv base limit) (hbase : base ≠ 0)
    (harena : base + limit + itemSizeMax ≤ 2 ^ 64) {call : Call} (hs : Run.step call r = some r') :
    r'.Inv base limit := by
  have hbelow := h.below hbase harena
  cases call with
  | sbMalloc size =>
    obtain ⟨hsize, hs⟩ := Option.ite_none_right_eq_some.mp hs
    rcases h.alloc.sbMalloc size with ⟨hno, -⟩ | ⟨t, ret, hok, ht⟩
    · rw [hno] at hs
      cases hs
    · rw [hok] at hs
      cases hs
      exact h.take le_rfl ht
  | sbAlignedMalloc size block =>
    obtain ⟨hsize, hs⟩ := Option.ite_none_right_eq_some.mp hs
    rcases h.alloc.sbAlignedMalloc hbelow hsize block with
      hno | ⟨t, ret, ht, ⟨-, hok, hle⟩ | ⟨-, hno⟩⟩
    · rw [hno] at hs
      cases hs
    · rw [hok] at hs
      cases hs
      exact h.take hle ht
    · rw [hno] at hs
      cases hs
  | sbFree ptr =>
    obtain ⟨hlive, hs⟩ := Option.ite_none_right_eq_some.mp hs
    obtain ⟨b, hb, rfl⟩ := List.mem_map.mp hlive
    obtain ⟨c, n, hheld, -⟩ := h.books.held_of_live b hb
    obtain ⟨t, hfree, ht, hlayout, htheld⟩ := h.alloc.sbFree hheld
    rw [hfree] at hs
    cases hs
    refine ⟨ht, (congrArg Layout.memBase hlayout).trans h.memBase,
      (congrArg Layout.memLimit hlayout).trans h.memLimit, ?_⟩
    show Books _ t.held
    rw [htheld]
    exact h.books.give b.ptr

theorem Inv.of_reachable (hbase : base ≠ 0) (harena : base + limit + itemSizeMax ≤ 2 ^ 64)
    (h₀ : Inv base limit ⟨s₀, []⟩) (hr : (runs s₀).Reachable r) : r.Inv base limit := by
  refine TransitionSystem.Reachable.invariant (fun r hinit => ?_) (fun r call r' _ h hs => ?_) hr
  · rw [show r = ⟨s₀, []⟩ from hinit]
    exact h₀
  · exact h.step hbase harena hs

/-! ## What follows for the blocks -/

/-- What is claimed of a state that a run reaches. -/
structure Tidy (base limit : ℕ) (r : Run) : Prop where
  disjoint : r.live.Pairwise fun b b' => Disjoint (r.alloc.bytes b.ptr) (r.alloc.bytes b'.ptr)
  inside : ∀ b ∈ r.live, r.alloc.bytes b.ptr ⊆ Set.Ico base (base + limit)
  large : ∀ b ∈ r.live, Set.Ico b.ptr (b.ptr + b.size) ⊆ r.alloc.bytes b.ptr
  /-- `slabclass` has `POWER_LARGEST + 1` entries. -/
  classes : r.alloc.powerLargest ≤ powerLargestMax ∧
    (∀ n, r.alloc.slabsClsid n ≤ r.alloc.powerLargest) ∧
    ∀ b ∈ r.live, powerSmallest ≤ r.alloc.classOf b.ptr ∧
      r.alloc.classOf b.ptr ≤ r.alloc.powerLargest
  /-- Only the assertion about alignment can fail, and freeing succeeds. -/
  intact : ∀ size, Requested size → r.alloc.sbMalloc size ≠ .error .broken ∧
    ∀ block, r.alloc.sbAlignedMalloc size block ≠ .error .broken
  freeable : ∀ b ∈ r.live, ∃ t n, r.alloc.sbFree b.ptr = .ok (t, n)
  /-- Whole lines on an arena of whole lines. -/
  line : base % lineSize = 0 → ∀ size, Requested size →
    r.alloc.sbAlignedMalloc size (.ofNat 64 lineSize) ≠ .error .misaligned ∧
    ∀ t ret, r.alloc.sbAlignedMalloc size (.ofNat 64 lineSize) = .ok (t, ret) → ret % lineSize = 0
  /-- The free list of a class ends, has nothing twice, and is that of its free chunks. -/
  lists : ∀ i, ∃ l, Linked.Chain (fun it => (r.alloc.items it).next) (r.alloc.slabclass i).slots l ∧
    l.Nodup ∧ (r.alloc.slabclass i).slCurr = l.length % 2 ^ 32 ∧
    ∀ a, a ∈ l.map (fun it => (r.alloc.items it).data) ↔
      r.alloc.layout.IsChunk i a ∧ a ∉ r.live.map Block.ptr

/-- A chunk is free if it is not live. -/
theorem Inv.mem_free_iff (h : r.Inv base limit) {free : ℕ → List ℕ}
    (hstock : Stock r.alloc.layout.IsChunk free r.alloc.tag r.alloc.slabsClsid) (i a : ℕ) :
    a ∈ free i ↔ r.alloc.layout.IsChunk i a ∧ a ∉ r.live.map Block.ptr := by
  rw [hstock.mem_free]
  refine and_congr_right fun hchunk => ⟨?_, fun hno => ?_⟩
  · rintro ⟨n, hn⟩ hlive
    obtain ⟨b, hb, rfl⟩ := List.mem_map.mp hlive
    obtain ⟨c, m, hheld, -⟩ := h.books.held_of_live b hb
    obtain ⟨htag, hc⟩ := Allocator.held_eq_some.mp hheld
    rw [hn] at htag
    cases htag
    exact hc rfl
  · obtain ⟨⟨c, n⟩, htag⟩ := Option.ne_none_iff_exists'.mp (hstock.known i a hchunk)
    rcases eq_or_ne c 0 with rfl | hc
    · exact ⟨n, htag⟩
    · exact absurd (h.books.live_of_held a (c, n) (Allocator.held_eq_some.mpr ⟨htag, hc⟩)) hno

theorem Inv.lists (h : r.Inv base limit) (i : ℕ) :
    ∃ l, Linked.Chain (fun it => (r.alloc.items it).next) (r.alloc.slabclass i).slots l ∧
      l.Nodup ∧ (r.alloc.slabclass i).slCurr = l.length % 2 ^ 32 ∧
      ∀ a, a ∈ l.map (fun it => (r.alloc.items it).data) ↔
        r.alloc.layout.IsChunk i a ∧ a ∉ r.live.map Block.ptr := by
  obtain ⟨free, hlists, hstock⟩ := h.alloc.stock
  obtain ⟨l, hl, hmap⟩ := hlists.linked i
  have hdata := hlists.known.map_data hmap
  refine ⟨l, hl, hl.nodup, ?_, fun a => ?_⟩
  · rw [hlists.count, ← hdata, List.length_map]
  · rw [hdata]
    exact h.mem_free_iff hstock i a

/-- The bytes of a live block are those of its chunk. -/
theorem Inv.of_live (h : r.Inv base limit) {b : Block} (hb : b ∈ r.live) :
    r.alloc.layout.IsChunk (r.alloc.classOf b.ptr) b.ptr ∧
      b.size ≤ r.alloc.layout.size (r.alloc.classOf b.ptr) := by
  obtain ⟨c, n, hheld, hle⟩ := h.books.held_of_live b hb
  obtain ⟨hchunk, hn, hc⟩ := h.alloc.of_held hheld
  rw [Allocator.classOf_of_held hheld]
  refine ⟨hchunk, ?_⟩
  rcases Allocator.slabsClsid_cases (n := n) h.alloc.classes with ⟨hzero, -⟩ | ⟨-, hsize⟩
  · exact absurd (hn.symm.trans hzero) hc
  · rw [hn] at hsize
    exact hle.trans hsize

theorem Inv.disjoint (h : r.Inv base limit) :
    r.live.Pairwise fun b b' => Disjoint (r.alloc.bytes b.ptr) (r.alloc.bytes b'.ptr) := by
  refine (List.pairwise_map.mp h.books.nodup).imp_of_mem fun {b b'} hb hb' hne => ?_
  have hchunk := (h.of_live hb).1
  have hchunk' := (h.of_live hb').1
  refine Set.Ico_disjoint_Ico.mpr ?_
  rcases hchunk.apart h.alloc.classes h.alloc.arena hchunk' with hle | hle | ⟨-, heq⟩
  · exact (min_le_left _ _).trans (hle.trans (le_max_right _ _))
  · exact (min_le_right _ _).trans (hle.trans (le_max_left _ _))
  · exact absurd heq hne

theorem Inv.inside (h : r.Inv base limit) {b : Block} (hb : b ∈ r.live) :
    r.alloc.bytes b.ptr ⊆ Set.Ico base (base + limit) := by
  obtain ⟨hlow, hhigh⟩ := (h.of_live hb).1.mem_arena h.alloc.classes h.alloc.arena
  have hroom := h.alloc.arena.room
  have hbase : r.alloc.layout.memBase = base := h.memBase
  have hlimit : r.alloc.layout.memLimit = limit := h.memLimit
  refine Set.Ico_subset_Ico (hbase ▸ hlow) ?_
  have hend : b.ptr + (r.alloc.slabclass (r.alloc.classOf b.ptr)).size ≤
      r.alloc.layout.memCurrent := hhigh
  omega

/-- A line on an arena of whole lines is a page of it. -/
theorem Inv.line (h : r.Inv base limit) (haligned : base % lineSize = 0) {size : BitVec 64}
    (hsize : Requested size) {t : Allocator} {n ret : ℕ} (ht : r.alloc.Took t n ret)
    (hn : n = (Allocator.align size (.ofNat 64 lineSize)).toNat) : ret % lineSize = 0 := by
  have hclass : r.alloc.slabsClsid n ≠ 0 :=
    Nat.pos_iff_ne_zero.mp (ht.chunk.isClass ht.inv.arena).1
  have hline := Allocator.slabsClsid_line h.alloc.classes (hn ▸ Allocator.line_le_align hsize) hclass
  rw [← ht.grows.size] at hline
  obtain ⟨k, rfl⟩ := ht.chunk.line ht.inv.classes ht.inv.arena hline
  have hbase : t.layout.memBase = base := ht.grows.memBase.trans h.memBase
  rw [hbase, itemSizeMax, Nat.add_mul_mod_self_right, haligned]

theorem Inv.tidy (h : r.Inv base limit) (hbase : base ≠ 0)
    (harena : base + limit + itemSizeMax ≤ 2 ^ 64) : r.Tidy base limit where
  disjoint := h.disjoint
  inside _ hb := h.inside hb
  large _ hb := Set.Ico_subset_Ico le_rfl (Nat.add_le_add_left (h.of_live hb).2 _)
  classes := ⟨h.alloc.classes.le, Allocator.slabsClsid_le h.alloc.classes,
    fun _ hb => (h.of_live hb).1.isClass h.alloc.arena⟩
  intact size hsize := by
    constructor
    · rcases h.alloc.sbMalloc size with ⟨hno, -⟩ | ⟨t, ret, hok, -⟩
      · rw [hno]
        nofun
      · rw [hok]
        nofun
    · intro block
      rcases h.alloc.sbAlignedMalloc (h.below hbase harena) hsize block with
        hno | ⟨t, ret, -, ⟨-, hok, -⟩ | ⟨-, hno⟩⟩
      · rw [hno]
        nofun
      · rw [hok]
        nofun
      · rw [hno]
        nofun
  freeable b hb := by
    obtain ⟨c, n, hheld, -⟩ := h.books.held_of_live b hb
    obtain ⟨t, ht, -⟩ := h.alloc.sbFree hheld
    exact ⟨t, n, ht⟩
  line haligned size hsize := by
    have hblock : (BitVec.ofNat 64 lineSize).toNat = lineSize := by decide
    rcases h.alloc.sbAlignedMalloc (h.below hbase harena) hsize (.ofNat 64 lineSize) with
      hno | ⟨t, ret, ht, ⟨-, hok, -⟩ | ⟨hret, -⟩⟩
    · rw [hno]
      exact ⟨nofun, nofun⟩
    · rw [hok]
      refine ⟨nofun, fun t' ret' heq => ?_⟩
      cases heq
      exact h.line haligned hsize ht rfl
    · rw [hblock] at hret
      exact absurd (h.line haligned hsize ht rfl) hret
  lists := h.lists

end Run

variable {factor : Factor} {limit : BitVec 64} {malloced base : ℕ} {s₀ : Allocator} {r : Run}

/-- In every run the live blocks are apart, and the allocator's lists are those of the free
chunks; `sl_curr` counts them in its 32 bits. -/
theorem tidy_of_reachable (hf : factor.AtLeastOne)
    (h₀ : Allocator.slabsInit limit factor malloced base = .ok s₀)
    (harena : base + limit.toNat + itemSizeMax ≤ 2 ^ 64) (hr : (runs s₀).Reachable r) :
    r.Tidy base limit.toNat := by
  obtain ⟨hinv, hmem, hlimit, hbase, hheld⟩ := Allocator.Inv.of_slabsInit hf h₀
  refine (Run.Inv.of_reachable hbase harena ⟨hinv, hmem, hlimit, List.nodup_nil, nofun,
    fun a x ha => ?_⟩ hr).tidy hbase harena
  rw [hheld a] at ha
  cases ha

theorem toOption_eq_some {ε α : Type} {x : Except ε α} {a : α} :
    x.toOption = some a ↔ x = .ok a := by
  cases x with
  | error e => exact ⟨nofun, nofun⟩
  | ok b => exact Option.some_inj.trans (Except.ok.injEq b a).to_iff.symm

/-- Sizes that double, on nine lines of which the first seven are preallocated. -/
def doubling : Except Fault Allocator :=
  Allocator.slabsInit (.ofNat 64 (9 * lineSize)) (.finite 2) 0 lineSize

/-- Blocks of three classes, one of which is freed and taken again. -/
theorem tidy_doubling : ∃ s₀ r, doubling = .ok s₀ ∧ (runs s₀).Reachable r ∧
    r.live = [⟨8128, 40⟩, ⟨12128, 49⟩, ⟨28672, 3000⟩] ∧ r.Tidy lineSize (9 * lineSize) := by
  have hrun : (doubling.toOption.bind fun s => ((runs s).run [.sbMalloc 48,
      .sbAlignedMalloc 3000 (.ofNat 64 lineSize), .sbMalloc 49, .sbFree 8128, .sbMalloc 40]
      ⟨s, []⟩).map Run.live) = some [⟨8128, 40⟩, ⟨12128, 49⟩, ⟨28672, 3000⟩] := by
    decide +kernel
  obtain ⟨s₀, hs₀, hlive⟩ := Option.bind_eq_some_iff.mp hrun
  have h₀ : doubling = .ok s₀ := toOption_eq_some.mp hs₀
  obtain ⟨r, hr, hblocks⟩ := TransitionSystem.exists_reachable (T := runs s₀) _ rfl hlive
  exact ⟨s₀, r, h₀, hr, hblocks, tidy_of_reachable one_le_two h₀ (by decide) hr⟩

end Slab

end Ting
