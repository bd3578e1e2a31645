/-
# `Ting.Soft.SlabCount` — the length of a free list is not always `sl_curr`

`sl_curr` is an `unsigned int`.  Nothing keeps a class from having more chunks than that counts: on
an arena of more than 200 GB as many blocks can be taken, and when they are all free again the
list is longer than its counter says.
-/
import Ting.Soft.SlabRuns

namespace Ting

namespace Slab

open SlabAllocator (itemSizeMax powerLargestMax)

/-- There is memory for so many pages, as both limits have it. -/
structure Layout.Room (y : Layout) (k : ℕ) : Prop where
  base : y.memBase ≠ 0
  avail : k * itemSizeMax ≤ y.memAvail
  malloced : y.memMalloced + k * itemSizeMax ≤ y.memLimit
  limit : y.memLimit < 2 ^ 64

namespace Layout

variable {y : Layout} {k id : ℕ}

theorem Room.hasPage (h : y.Room (k + 1)) : y.HasPage := by
  obtain ⟨hbase, havail, hmalloced, hlimit⟩ := h
  rw [Nat.succ_mul] at havail hmalloced
  exact ⟨hbase, by omega, by omega⟩

theorem Room.addPage (h : y.Room (k + 1)) (id : ℕ) : (y.addPage id).Room k := by
  obtain ⟨hbase, havail, hmalloced, hlimit⟩ := h
  rw [Nat.succ_mul] at havail hmalloced
  refine ⟨hbase, ?_, ?_, hlimit⟩
  · simp only [Layout.addPage]
    omega
  · simp only [Layout.addPage]
    omega

theorem Room.mono {k' : ℕ} (h : y.Room k) (hk : k' ≤ k) : y.Room k' := by
  have hle := Nat.mul_le_mul_right itemSizeMax hk
  exact ⟨h.base, hle.trans h.avail, (Nat.add_le_add_left hle _).trans h.malloced, h.limit⟩

end Layout

namespace Allocator

variable {s : Allocator} {factor : Factor} {limit : BitVec 64} {base i k n : ℕ}

theorem Inv.preallocate_some (h : s.Inv) (hi : powerSmallest ≤ i) (hk : i + k ≤ s.powerLargest + 1)
    (hroom : s.layout.Room (n + k)) :
    ∃ t, Allocator.preallocate k i s = .ok t ∧ t.layout.Room n := by
  induction k generalizing i s with
  | zero => exact ⟨s, rfl, hroom⟩
  | succ k ih =>
    have hid : s.layout.IsClass i := by
      simp only [Layout.IsClass, layout]
      omega
    rcases h.newslab hid with ⟨-, hno⟩ | ⟨u, hnew, hu, hulayout, -⟩
    · exact absurd hroom.hasPage hno
    · have hpower : u.powerLargest = s.powerLargest := congrArg Layout.powerLargest hulayout
      have hroom' : u.layout.Room (n + k) := by
        rw [hulayout]
        exact Layout.Room.addPage hroom i
      obtain ⟨t, ht, hn⟩ := ih hu (Nat.le_succ_of_le hi) (by omega) hroom'
      exact ⟨t, by rw [Allocator.preallocate, hnew]; exact ht, hn⟩

/-- `slabs_init` completes when there is a page for each class that there can be. -/
theorem slabsInit_some (hf : factor.AtLeastOne) (hbase : base ≠ 0)
    (hlimit : (n + powerLargestMax) * itemSizeMax ≤ limit.toNat) :
    ∃ s, slabsInit limit factor 0 base = .ok s ∧ s.layout.Room n := by
  refine (blank_inv hf).preallocate_some le_rfl ?_ ?_
  · rw [Nat.add_comm]
    exact Nat.succ_le_succ (min_le_right _ _)
  · have hroom : (blank limit factor 0 base).layout.Room (n + powerLargestMax) :=
      ⟨hbase, hlimit, (Nat.zero_add _).trans_le hlimit, limit.isLt⟩
    exact hroom.mono (Nat.add_le_add_left (min_le_left _ _) n)

end Allocator

namespace Run

variable {s₀ : Allocator} {r : Run} {base limit c n : ℕ}

/-- As many blocks of the smallest size can be taken as there is memory for pages. -/
theorem exists_taken (hbase : base ≠ 0) (harena : base + limit + itemSizeMax ≤ 2 ^ 64)
    (h₀ : Inv base limit ⟨s₀, []⟩) (hr : (runs s₀).Reachable r)
    (hclass : r.alloc.slabsClsid 1 = c) (hroom : r.alloc.layout.Room n)
    (hlive : ∀ b ∈ r.live, r.alloc.layout.IsChunk c b.ptr) :
    ∃ r', (runs s₀).Reachable r' ∧ r'.live.length = r.live.length + n ∧
      ∀ b ∈ r'.live, r'.alloc.layout.IsChunk c b.ptr := by
  induction n generalizing r with
  | zero => exact ⟨r, hr, rfl, hlive⟩
  | succ n ih =>
    have h := Inv.of_reachable hbase harena h₀ hr
    have hone : Requested 1 := by decide
    rcases h.alloc.sbMalloc 1 with ⟨-, hno⟩ | ⟨t, ret, hok, ht⟩
    · exact absurd hroom.hasPage (hno hone)
    · have hstep : (runs s₀).step (.sbMalloc 1) r = some ⟨t, ⟨ret, (1 : BitVec 64).toNat⟩ :: r.live⟩ := by
        show (if Requested 1 then r.hand 1 (r.alloc.sbMalloc 1) else none) = _
        rw [if_pos hone, hok]
        rfl
      have hclsid : t.slabsClsid = r.alloc.slabsClsid :=
        Allocator.slabsClsid_congr ht.grows.size ht.grows.powerLargest
      have hroom' : t.layout.Room n := by
        rcases ht.layout with heq | ⟨id, heq⟩
        · rw [heq]
          exact hroom.mono (Nat.le_succ n)
        · rw [heq]
          exact hroom.addPage id
      obtain ⟨r', hr', hlen, hall⟩ := @ih ⟨t, _⟩ (.step hr trivial hstep) (hclsid ▸ hclass) hroom'
        fun b hb => by
          rcases List.mem_cons.mp hb with rfl | hb
          · exact hclass ▸ ht.chunk
          · exact ht.grows.chunk c b.ptr (hlive b hb)
      refine ⟨r', hr', ?_, hall⟩
      rw [hlen, List.length_cons]
      omega

/-- All live blocks can be freed. -/
theorem exists_freed (hbase : base ≠ 0) (harena : base + limit + itemSizeMax ≤ 2 ^ 64)
    (h₀ : Inv base limit ⟨s₀, []⟩) (hr : (runs s₀).Reachable r) :
    ∃ r', (runs s₀).Reachable r' ∧ r'.live = [] ∧ r'.alloc.layout = r.alloc.layout := by
  induction hn : r.live.length using Nat.strong_induction_on generalizing r with
  | _ n ih =>
    cases hlive : r.live with
    | nil => exact ⟨r, hr, hlive, rfl⟩
    | cons b rest =>
      have h := Inv.of_reachable hbase harena h₀ hr
      have hb : b ∈ r.live := hlive ▸ List.mem_cons_self
      obtain ⟨c, m, hheld, -⟩ := h.books.held_of_live b hb
      obtain ⟨t, hfree, -, hlayout, -⟩ := h.alloc.sbFree hheld
      have hstep : (runs s₀).step (.sbFree b.ptr) r =
          some ⟨t, r.live.filter fun b' => b'.ptr ≠ b.ptr⟩ := by
        show (if b.ptr ∈ r.live.map Block.ptr then _ else none) = _
        rw [if_pos (List.mem_map_of_mem hb), hfree]
      have hless : (r.live.filter fun b' => b'.ptr ≠ b.ptr).length < n := by
        rw [← hn]
        exact List.length_filter_lt_length_iff_exists.mpr ⟨b, hb, by simp⟩
      obtain ⟨r', hr', hnil, heq⟩ := @ih _ hless ⟨t, _⟩ (.step hr trivial hstep) rfl
      exact ⟨r', hr', hnil, heq.trans hlayout⟩

end Run

/-- An arena with room for a page for each of 2³² blocks. -/
def wideLimit : BitVec 64 := .ofNat 64 ((2 ^ 32 + powerLargestMax) * lineSize)

/-- After 2³² blocks of one byte are taken and freed again, the free list of their class is longer
than its `sl_curr`. -/
theorem free_list_longer : ∃ s₀ r i l,
    Allocator.slabsInit wideLimit (.finite 2) 0 (2 ^ 40) = .ok s₀ ∧ (runs s₀).Reachable r ∧
      Linked.Chain (fun it => (r.alloc.items it).next) (r.alloc.slabclass i).slots l ∧
      (r.alloc.slabclass i).slCurr < l.length := by
  have hf : (Factor.finite 2).AtLeastOne := one_le_two
  have hlimit : wideLimit.toNat = (2 ^ 32 + powerLargestMax) * itemSizeMax := by decide
  have hbase : 2 ^ 40 ≠ 0 := by decide
  have harena : 2 ^ 40 + wideLimit.toNat + itemSizeMax ≤ 2 ^ 64 := by decide
  obtain ⟨s₀, h₀, hroom⟩ := Allocator.slabsInit_some hf hbase hlimit.ge
  obtain ⟨hinv, hmem, hlim, -, hheld⟩ := Allocator.Inv.of_slabsInit hf h₀
  have hstart : Run.Inv (2 ^ 40) wideLimit.toNat ⟨s₀, []⟩ := by
    refine ⟨hinv, hmem, hlim, List.nodup_nil, nofun, fun a x ha => ?_⟩
    rw [hheld a] at ha
    cases ha
  obtain ⟨r, hr, hlen, hchunk⟩ := Run.exists_taken hbase harena hstart (.init rfl) rfl hroom nofun
  obtain ⟨r', hr', hnil, hlayout⟩ := Run.exists_freed hbase harena hstart hr
  obtain ⟨l, hl, -, hcount, hmem'⟩ :=
    (Run.Inv.of_reachable hbase harena hstart hr').lists (s₀.slabsClsid 1)
  refine ⟨s₀, r', s₀.slabsClsid 1, l, h₀, hr', hl, ?_⟩
  -- all that was live is on the list
  have hsub : r.live.map Block.ptr ⊆ l.map fun it => (r'.alloc.items it).data := by
    intro a ha
    obtain ⟨b, hb, rfl⟩ := List.mem_map.mp ha
    rw [hmem', hlayout, hnil]
    exact ⟨hchunk b hb, nofun⟩
  have hle := ((Run.Inv.of_reachable hbase harena hstart hr).books.nodup.subperm hsub).length_le
  rw [List.length_map, List.length_map, hlen, List.length_nil] at hle
  omega

end Slab

end Ting
