/-
# `Ting.Soft.SlabBlocks` — the allocator hands out every chunk once

`Stock` is the book-keeping: a chunk of a class is either on the free list of that class, and its
tag has class 0, or it is held, and its tag has the class and a size that belongs there.  The
operations keep it, and no assertion fails on the way but the one about the alignment that was
asked for.  The blocks that a run has handed out and not freed are the chunks that are held.
-/
import Ting.Soft.SlabPages

namespace Ting

namespace Slab

open SlabAllocator (itemSizeMax powerLargestMax)

/-! ## Book-keeping -/

/-- Which of the chunks `K` of each class are free and which are held, and for what size. -/
structure Stock (K : ℕ → ℕ → Prop) (free : ℕ → List ℕ) (tag : ℕ → Option (ℕ × ℕ))
    (clsid : ℕ → ℕ) : Prop where
  mem_free : ∀ i a, a ∈ free i ↔ K i a ∧ ∃ n, tag a = some (0, n)
  known : ∀ i a, K i a → tag a ≠ none
  tagged : ∀ a c n, tag a = some (c, n) → ∃ i, K i a ∧ (c = 0 ∨ c = i ∧ clsid n = i)
  unique : ∀ i j a, K i a → K j a → i = j

namespace Stock

variable {K K' : ℕ → ℕ → Prop} {free : ℕ → List ℕ} {tag : ℕ → Option (ℕ × ℕ)} {clsid : ℕ → ℕ}
  {a b c i id n : ℕ}

/-- The chunks of a list that one is put on. -/
theorem mem_push : b ∈ Function.update free id (a :: free id) i ↔
    b ∈ free i ∨ i = id ∧ b = a := by
  rcases eq_or_ne i id with rfl | hi
  · simp only [Function.update_self, List.mem_cons, true_and, or_comm]
  · simp only [Function.update_of_ne hi, hi, false_and, or_false]

/-- A tag with a class is not that of a free chunk. -/
theorem not_free (hc : c ≠ 0) : ¬ ∃ m, some (c, n) = some (0, m) := by
  rintro ⟨m, hm⟩
  cases hm
  exact hc rfl

theorem untagged (h : Stock K free tag clsid) (ha : ∀ i, ¬ K i a) : tag a = none := by
  cases htag : tag a with
  | none => rfl
  | some x =>
    obtain ⟨i, hi, -⟩ := h.tagged a x.1 x.2 htag
    exact absurd hi (ha i)

theorem known_update {x : ℕ × ℕ} (hb : b ≠ a → tag b ≠ none) :
    Function.update tag a (some x) b ≠ none := by
  rcases eq_or_ne b a with rfl | hne
  · rw [Function.update_self]
    exact nofun
  · rw [Function.update_of_ne hne]
    exact hb hne

/-- A new chunk is free. -/
theorem add (h : Stock K free tag clsid) (ha : ∀ i, ¬ K i a) (id : ℕ) :
    Stock (fun i b => K i b ∨ i = id ∧ b = a) (Function.update free id (a :: free id))
      (Function.update tag a (some (0, 0))) clsid where
  mem_free i b := by
    rw [mem_push, h.mem_free]
    rcases eq_or_ne b a with rfl | hb
    · simp only [ha, false_and, false_or, and_true, Function.update_self, Option.some.injEq,
        Prod.mk.injEq, true_and, exists_eq']
    · simp only [hb, and_false, or_false, Function.update_of_ne hb]
  known i b hb := known_update fun hne => h.known i b (hb.resolve_right fun hx => hne hx.2)
  tagged b c n hb := by
    rcases eq_or_ne b a with rfl | hne
    · rw [Function.update_self] at hb
      cases hb
      exact ⟨id, .inr ⟨rfl, rfl⟩, .inl rfl⟩
    · rw [Function.update_of_ne hne] at hb
      obtain ⟨i, hi, hc⟩ := h.tagged b c n hb
      exact ⟨i, .inl hi, hc⟩
  unique i j b hi hj := by
    rcases hi with hi | ⟨rfl, rfl⟩
    · rcases hj with hj | ⟨rfl, rfl⟩
      · exact h.unique i j b hi hj
      · exact absurd hi (ha i)
    · rcases hj with hj | ⟨rfl, -⟩
      · exact absurd hj (ha j)
      · rfl

/-- The first free chunk of a class is held for a size of that class. -/
theorem take (h : Stock K free tag clsid) {rest : List ℕ} (hfree : free id = a :: rest)
    (hnodup : (free id).Nodup) (hid : id ≠ 0) (hn : clsid n = id) :
    Stock K (Function.update free id rest) (Function.update tag a (some (id, n))) clsid where
  mem_free i b := by
    have ha : K id a := ((h.mem_free id a).mp (hfree ▸ List.mem_cons_self)).1
    rw [hfree, List.nodup_cons] at hnodup
    rcases eq_or_ne b a with rfl | hb
    · simp only [Function.update_self, not_free hid, and_false, iff_false]
      rcases eq_or_ne i id with rfl | hi
      · rw [Function.update_self]
        exact hnodup.1
      · rw [Function.update_of_ne hi]
        intro hmem
        exact hi (h.unique i id b ((h.mem_free i b).mp hmem).1 ha)
    · rw [Function.update_of_ne hb, ← h.mem_free]
      rcases eq_or_ne i id with rfl | hi
      · rw [Function.update_self, hfree, List.mem_cons]
        simp only [hb, false_or]
      · rw [Function.update_of_ne hi]
  known i b hb := known_update fun _ => h.known i b hb
  tagged b c m hb := by
    rcases eq_or_ne b a with rfl | hne
    · rw [Function.update_self] at hb
      cases hb
      exact ⟨id, ((h.mem_free id b).mp (hfree ▸ List.mem_cons_self)).1, .inr ⟨rfl, hn⟩⟩
    · rw [Function.update_of_ne hne] at hb
      exact h.tagged b c m hb
  unique := h.unique

/-- A chunk that is held becomes free. -/
theorem give (h : Stock K free tag clsid) (ha : tag a = some (c, n)) (hc : c ≠ 0) (m : ℕ) :
    Stock K (Function.update free c (a :: free c)) (Function.update tag a (some (0, m))) clsid := by
  obtain ⟨i, hi, hci⟩ := h.tagged a c n ha
  obtain ⟨rfl, -⟩ := hci.resolve_left hc
  refine ⟨fun j b => ?_, fun j b hb => known_update fun _ => h.known j b hb, fun b c' k hb => ?_,
    h.unique⟩
  · rw [mem_push, h.mem_free]
    rcases eq_or_ne b a with rfl | hb
    · rw [ha, eq_false (not_free hc)]
      simp only [and_false, false_or, and_true, Function.update_self,
        Option.some.injEq, Prod.mk.injEq, true_and, exists_eq']
      exact ⟨fun hj => hj ▸ hi, fun hj => h.unique j c b hj hi⟩
    · simp only [hb, and_false, or_false, Function.update_of_ne hb]
  · rcases eq_or_ne b a with rfl | hne
    · rw [Function.update_self] at hb
      cases hb
      exact ⟨c, hi, .inl rfl⟩
    · rw [Function.update_of_ne hne] at hb
      exact h.tagged b c' k hb

/-- A chunk that is held is held for another size of its class. -/
theorem resize (h : Stock K free tag clsid) (ha : tag a = some (c, n)) (hc : c ≠ 0) {m : ℕ}
    (hm : clsid m = c) : Stock K free (Function.update tag a (some (c, m))) clsid := by
  obtain ⟨i, hi, hci⟩ := h.tagged a c n ha
  obtain ⟨rfl, -⟩ := hci.resolve_left hc
  refine ⟨fun j b => ?_, fun j b hb => known_update fun _ => h.known j b hb, fun b c' k hb => ?_,
    h.unique⟩
  · rw [h.mem_free]
    rcases eq_or_ne b a with rfl | hb
    · rw [ha, Function.update_self, eq_false (not_free hc), eq_false (not_free hc)]
    · rw [Function.update_of_ne hb]
  · rcases eq_or_ne b a with rfl | hne
    · rw [Function.update_self] at hb
      cases hb
      exact ⟨c, hi, .inr ⟨rfl, hm⟩⟩
    · rw [Function.update_of_ne hne] at hb
      exact h.tagged b c' k hb

theorem congr (h : Stock K free tag clsid) (hK : ∀ i a, K' i a ↔ K i a) :
    Stock K' free tag clsid := by
  obtain rfl : K' = K := funext fun i => funext fun a => propext (hK i a)
  exact h

end Stock

namespace Allocator

variable {s t : Allocator} {a b c i id n ptr : ℕ} {free : ℕ → List ℕ} {K : ℕ → ℕ → Prop}
  {clsid : ℕ → ℕ}

/-- What holds between two calls. -/
structure Inv (s : Allocator) : Prop where
  classes : s.layout.Classes
  arena : s.layout.Arena
  stock : ∃ free, s.Lists free ∧ Stock s.layout.IsChunk free s.tag s.slabsClsid

/-- With the layout as it was only the books are to be checked. -/
theorem Inv.of_stock (h : s.Inv) (hlayout : t.layout = s.layout) (ht : t.Lists free)
    (hstock : Stock s.layout.IsChunk free t.tag s.slabsClsid) : t.Inv := by
  refine ⟨?_, ?_, free, ht, ?_⟩
  · rw [hlayout]
    exact h.classes
  · rw [hlayout]
    exact h.arena
  · rw [hlayout, slabsClsid_layout hlayout]
    exact hstock

/-- The class and the size of a chunk that is held. -/
def held (s : Allocator) (a : ℕ) : Option (ℕ × ℕ) :=
  (s.tag a).filter fun x => x.1 ≠ 0

theorem held_eq_some : s.held a = some (c, n) ↔ s.tag a = some (c, n) ∧ c ≠ 0 := by
  simp only [held, Option.filter_eq_some_iff, decide_eq_true_eq]

/-- A tag that changes is that of a chunk that is free from then on, or held. -/
theorem held_of_tag {x : ℕ × ℕ} (h : t.tag = Function.update s.tag a (some x)) :
    t.held = Function.update s.held a (if x.1 = 0 then none else some x) := by
  funext b
  rcases eq_or_ne b a with rfl | hb
  · simp only [held, h, Function.update_self, Option.filter_some]
    split
    next hx => rw [if_neg (of_decide_eq_true hx)]
    next hx =>
      rw [if_pos]
      by_contra hne
      exact hx (decide_eq_true hne)
  · simp only [held, h, Function.update_of_ne hb]

/-! ## A new page -/

/-- The chunks of a page are added one by one. -/
theorem Lists.splitSlabPage (hid : s.layout.IsClass id) (hpos : 0 < s.layout.size id) (x : ℕ)
    (h : s.Lists free) (hk : Stock K free s.tag clsid)
    (hnew : ∀ k < x, ∀ i, ¬ K i (ptr + k * s.layout.size id)) :
    ∃ t free', splitSlabPage id x ptr s = .ok t ∧ t.Lists free' ∧ t.layout = s.layout ∧
      t.held = s.held ∧ (free' id).length = (free id).length + x ∧
      Stock (fun i a => K i a ∨ i = id ∧ ∃ k < x, a = ptr + k * s.layout.size id) free' t.tag
        clsid := by
  induction x generalizing s free K ptr with
  | zero =>
    refine ⟨s, free, rfl, h, rfl, rfl, rfl, hk.congr fun i a => ?_⟩
    simp only [Nat.not_lt_zero, false_and, exists_false, and_false, or_false]
  | succ x ih =>
    have hptr : ∀ i, ¬ K i ptr := fun i => by
      have := hnew 0 (Nat.succ_pos x) i
      rwa [Nat.zero_mul, Nat.add_zero] at this
    obtain ⟨t, hfree, ht, hlayout, htag⟩ := h.doSlabsFree ptr hid
      fun i hi => hptr i ((hk.mem_free i ptr).mp hi).1
    rw [hk.untagged hptr, Option.getD_none] at htag
    have hstock := hk.add hptr id
    rw [← htag] at hstock
    have hsize : (t.slabclass id).size = s.layout.size id :=
      congrFun (congrArg Layout.size hlayout) id
    rw [← hlayout] at hid hpos
    have hnext : ∀ k < x, ∀ i, ¬ (K i (ptr + s.layout.size id + k * t.layout.size id) ∨
        i = id ∧ ptr + s.layout.size id + k * t.layout.size id = ptr) := by
      rintro k hkx i (hi | ⟨-, heq⟩)
      · refine hnew (k + 1) (Nat.succ_lt_succ hkx) i ?_
        rw [Nat.succ_mul, Nat.add_comm (k * _), ← Nat.add_assoc]
        rwa [hlayout] at hi
      · rw [hlayout] at hpos
        omega
    obtain ⟨u, free', hu, hlists, hulayout, huheld, hlen, hustock⟩ := ih hid hpos ht hstock hnext
    refine ⟨u, free', ?_, hlists, hulayout.trans hlayout, ?_, ?_, hustock.congr fun i a => ?_⟩
    · rw [Allocator.splitSlabPage, hfree]
      show Allocator.splitSlabPage id x (ptr + (t.slabclass id).size) t = _
      rw [hsize]
      exact hu
    · rw [huheld, held_of_tag htag, if_pos rfl]
      refine Function.update_eq_self_iff.mpr ?_
      simp only [held, hk.untagged hptr, Option.filter_none]
    · rw [hlen, Function.update_self, List.length_cons]
      omega
    · have hstep : ∀ k, ptr + (k + 1) * s.layout.size id =
          ptr + s.layout.size id + k * s.layout.size id := by
        intro k
        rw [Nat.succ_mul, Nat.add_comm (k * _), Nat.add_assoc]
      rw [hlayout, or_assoc, ← and_or_left, Nat.exists_lt_succ_left]
      simp only [hstep, Nat.zero_mul, Nat.add_zero]

theorem memoryAllocate_page (s : Allocator) : s.memoryAllocate itemSizeMax =
    if s.memBase = 0 ∨ itemSizeMax > s.memAvail then .error .noMemory
    else .ok ({ s with
      memCurrent := s.memCurrent + itemSizeMax
      memAvail := s.memAvail - itemSizeMax }, s.memCurrent) := by
  have havail : (if itemSizeMax < s.memAvail then s.memAvail - itemSizeMax else 0) =
      s.memAvail - itemSizeMax := by
    split <;> omega
  rw [← havail]
  rfl

/-- The array of pages of a class is not what the free lists are about. -/
theorem Lists.appendPage (h : s.Lists free) (id ptr m : ℕ) :
    ({ s.setClass id fun p => { p with slabList := p.slabList ++ [ptr] } with
      memMalloced := m } : Allocator).Lists free := by
  have hslots : ∀ j, ((s.setClass id fun p => { p with
      slabList := p.slabList ++ [ptr] }).slabclass j).slots = (s.slabclass j).slots :=
    setClass_slabclass (g := Class.slots) fun _ => rfl
  have hcurr : ∀ j, ((s.setClass id fun p => { p with
      slabList := p.slabList ++ [ptr] }).slabclass j).slCurr = (s.slabclass j).slCurr :=
    setClass_slabclass (g := Class.slCurr) fun _ => rfl
  refine ⟨h.known, fun j => ?_, fun j => ?_, h.apart⟩
  · simp only [hslots]
    exact h.linked j
  · simp only [hcurr]
    exact h.count j

theorem appendPage_layout (s : Allocator) (id ptr m : ℕ) :
    ({ s.setClass id fun p => { p with slabList := p.slabList ++ [ptr] } with
      memMalloced := m } : Allocator).layout = { s.layout with
        slabList := Function.update s.layout.slabList id (s.layout.slabList id ++ [ptr])
        memMalloced := m } := by
  have hfield : ∀ j, (s.setClass id fun p => { p with slabList := p.slabList ++ [ptr] }).slabclass j =
      { s.slabclass j with
        slabList := Function.update s.layout.slabList id (s.layout.slabList id ++ [ptr]) j } := by
    intro j
    rcases eq_or_ne j id with rfl | hj
    · simp only [setClass, Function.update_self]
      rfl
    · simp only [setClass, Function.update_of_ne hj]
      rfl
  simp only [layout, hfield]
  rfl

/-- There is a page more for a class, with chunks that are free; or there is no memory. -/
theorem Inv.newslab (h : s.Inv) (hid : s.layout.IsClass id) :
    s.doSlabsNewslab id = .error .noMemory ∧ ¬ s.layout.HasPage ∨
      ∃ t, s.doSlabsNewslab id = .ok t ∧ t.Inv ∧ t.layout = s.layout.addPage id ∧
        t.held = s.held ∧ s.memBase ≠ 0 ∧
        (t.slabclass id).slCurr = ((s.slabclass id).slCurr + s.layout.perslab id) % 2 ^ 32 := by
  rw [doSlabsNewslab]
  split
  next hlimit => exact .inl ⟨rfl, fun hpage => Nat.not_lt.mpr hpage.2.2 hlimit.2.1⟩
  next hlimit =>
    rw [memoryAllocate_page]
    split
    next hno => exact .inl ⟨rfl, fun hpage => hno.elim hpage.1 (Nat.not_lt.mpr hpage.2.1)⟩
    next havail =>
      right
      obtain ⟨free, hlists, hstock⟩ := h.stock
      have hpos := h.classes.pos id hid
      let s' : Allocator := { s with
        memCurrent := s.memCurrent + itemSizeMax
        memAvail := s.memAvail - itemSizeMax }
      have hlists' : s'.Lists free := ⟨hlists.known, hlists.linked, hlists.count, hlists.apart⟩
      obtain ⟨t, free', ht, htlists, htlayout, htheld, hlen, htstock⟩ :=
        Lists.splitSlabPage (s := s') hid hpos (s.slabclass id).perslab hlists' hstock
          fun k _ i => Layout.not_isChunk_next h.classes h.arena _
      let u : Allocator :=
        { t.setClass id fun p => { p with slabList := p.slabList ++ [s.memCurrent] } with
          memMalloced := (t.memMalloced + itemSizeMax) % 2 ^ 64 }
      have hlayout : u.layout = s.layout.addPage id := by
        have hmalloced : t.memMalloced = s.memMalloced := congrArg Layout.memMalloced htlayout
        rw [appendPage_layout, htlayout, hmalloced]
        rfl
      have hclsid : u.slabsClsid = s.slabsClsid :=
        slabsClsid_congr (hlayout ▸ rfl) (congrArg Layout.powerLargest hlayout)
      have hroom : itemSizeMax ≤ s.memAvail := by omega
      have hulists : u.Lists free' := htlists.appendPage _ _ _
      refine ⟨u, ?_, ⟨?_, ?_, free', hulists, ?_⟩, hlayout, htheld, by omega, ?_⟩
      · show (Allocator.splitSlabPage id (s.slabclass id).perslab s.memCurrent s' >>= _) = _
        rw [show Allocator.splitSlabPage id _ s.memCurrent s' = _ from ht]
        rfl
      · rw [hlayout]
        exact h.classes.addPage id
      · rw [hlayout]
        exact h.arena.addPage hid hroom
      · rw [hclsid, hlayout]
        exact htstock.congr fun i a => Layout.isChunk_addPage
      · rw [hulists.count, hlists.count, hlen, Nat.mod_add_mod]
        rfl

/-! ## The operations -/

theorem Inv.headFree (h : s.Inv) (hcurr : (s.slabclass id).slCurr ≠ 0) : s.headFree id := by
  obtain ⟨free, hlists, hstock⟩ := h.stock
  obtain ⟨a, rest, hfree⟩ := hlists.exists_cons hcurr
  obtain ⟨-, n, htag⟩ := (hstock.mem_free id a).mp (hfree ▸ List.mem_cons_self)
  exact hlists.headFree hfree htag

/-- A chunk is taken off a free list. -/
theorem Inv.takeSlot (h : s.Inv) (hid : s.layout.IsClass id) (hn : s.slabsClsid n = id)
    (hcurr : (s.slabclass id).slCurr ≠ 0) :
    ∃ t a, s.takeSlot n id = .ok (t, a) ∧ t.Inv ∧ t.layout = s.layout ∧ s.layout.IsChunk id a ∧
      s.held a = none ∧ t.held = Function.update s.held a (some (id, n)) := by
  obtain ⟨free, hlists, hstock⟩ := h.stock
  obtain ⟨a, rest, hfree⟩ := hlists.exists_cons hcurr
  obtain ⟨t, ht, htlists, hlayout, htag⟩ := hlists.takeSlot hfree hcurr n
  have hid0 : id ≠ 0 := Nat.pos_iff_ne_zero.mp hid.1
  have hbyte : id % 256 = id := by
    have := hid.2.trans h.classes.le
    simp only [powerLargestMax] at this
    omega
  rw [hbyte] at htag
  have hchunk : s.layout.IsChunk id a ∧ ∃ m, s.tag a = some (0, m) :=
    (hstock.mem_free id a).mp (hfree ▸ List.mem_cons_self)
  obtain ⟨hchunk, m, hm⟩ := hchunk
  have htstock := hstock.take hfree (hlists.nodup id) hid0 hn
  rw [← htag] at htstock
  refine ⟨t, a, ht, h.of_stock hlayout htlists htstock, hlayout, hchunk, ?_, ?_⟩
  · simp only [held, hm, Option.filter_some, ne_eq, not_true, decide_false]
    rfl
  · rw [held_of_tag htag, if_neg hid0]

/-- Either there is no memory, or a free chunk is handed out. -/
theorem Inv.doSlabsAlloc (h : s.Inv) (hn : s.slabsClsid n = id) :
    s.doSlabsAlloc n id = .error .noMemory ∧ (s.layout.IsClass id → ¬ s.layout.HasPage) ∨
      ∃ t a, s.doSlabsAlloc n id = .ok (t, a) ∧ t.Inv ∧
        (t.layout = s.layout ∨ t.layout = s.layout.addPage id) ∧
        t.layout.IsChunk id a ∧ s.held a = none ∧
        t.held = Function.update s.held a (some (id, n)) := by
  rw [Allocator.doSlabsAlloc]
  split
  next hrange =>
    refine .inl ⟨rfl, fun hid => ?_⟩
    simp only [Layout.IsClass, layout] at hid
    omega
  next hrange =>
    have hid : s.layout.IsClass id := by
      simp only [Layout.IsClass, layout]
      omega
    rw [if_neg (not_not.mpr (or_iff_not_imp_left.mpr h.headFree))]
    split
    next hcurr =>
      right
      obtain ⟨t, a, ht, hinv, hlayout, hchunk, hnone, hheld⟩ := h.takeSlot hid hn hcurr
      refine ⟨t, a, ?_, hinv, .inl hlayout, hlayout ▸ hchunk, hnone, hheld⟩
      show (if (s.slabclass id).slCurr ≠ 0 then s.takeSlot n id else .error .noMemory) = _
      rw [if_pos hcurr, ht]
    next hcurr =>
      rcases h.newslab hid with ⟨hnew, hno⟩ | ⟨u, hnew, hu, hulayout, huheld, -, hcount⟩
      · left
        rw [hnew]
        exact ⟨rfl, fun _ => hno⟩
      · right
        rw [hnew]
        have hgrows : s.layout.Grows u.layout := hulayout ▸ Layout.Grows.addPage _ _
        have hclsid : u.slabsClsid = s.slabsClsid :=
          slabsClsid_congr hgrows.size hgrows.powerLargest
        have hid' : u.layout.IsClass id := by
          rw [hulayout]
          exact hid
        have hcurr' : (u.slabclass id).slCurr ≠ 0 := by
          obtain ⟨hpos, hle⟩ := h.classes.perslab_pos hid
          rw [hcount, not_not.mp hcurr]
          simp only [itemSizeMax, lineSize] at hle
          omega
        obtain ⟨t, a, ht, hinv, hlayout, hchunk, hnone, hheld⟩ :=
          hu.takeSlot hid' (hclsid ▸ hn) hcurr'
        refine ⟨t, a, ?_, hinv, .inr (hlayout.trans hulayout), hlayout ▸ hchunk, huheld ▸ hnone,
          huheld ▸ hheld⟩
        show (if (u.slabclass id).slCurr ≠ 0 then u.takeSlot n id else .error .noMemory) = _
        rw [if_pos hcurr', ht]

/-- The item of a chunk that is held. -/
theorem item_of_held (ha : s.held a = some (c, n)) :
    ∃ it, s.statsMap a = some it ∧ (s.items it).slabsClsid = c ∧ (s.items it).size = n := by
  obtain ⟨it, hit, hx⟩ := Option.map_eq_some_iff.mp (held_eq_some.mp ha).1
  exact ⟨it, hit, congrArg Prod.fst hx, congrArg Prod.snd hx⟩

/-- A chunk that is held is one of its class, which its size belongs to. -/
theorem Inv.of_held (h : s.Inv) (ha : s.held a = some (c, n)) :
    s.layout.IsChunk c a ∧ s.slabsClsid n = c ∧ c ≠ 0 := by
  obtain ⟨htag, hc⟩ := held_eq_some.mp ha
  obtain ⟨free, -, hstock⟩ := h.stock
  obtain ⟨i, hchunk, hi⟩ := hstock.tagged a c n htag
  obtain ⟨rfl, hn⟩ := hi.resolve_left hc
  exact ⟨hchunk, hn, hc⟩

/-- `stats_map` leads to the item of an address, which notes it. -/
theorem Inv.data (h : s.Inv) (hit : s.statsMap a = some it) : (s.items it).data = a := by
  obtain ⟨free, hlists, -⟩ := h.stock
  exact (hlists.known a it hit).1

/-- There is memory if there is a chunk. -/
theorem Inv.memLimit_ne_zero (h : s.Inv) (ha : s.layout.IsChunk c a) : s.memLimit ≠ 0 := by
  have hmem := ha.mem_arena h.classes h.arena
  have hpos := h.classes.pos c (ha.isClass h.arena)
  have hroom := h.arena.room
  simp only [layout] at hmem hpos hroom
  omega

/-- A chunk whose class is taken from it goes back on its free list. -/
theorem Inv.release (h : s.Inv) (ha : s.held a = some (c, n)) (hit : s.statsMap a = some it)
    {f : Item → Item} (hdata : ∀ x, (f x).data = x.data) (hnext : ∀ x, (f x).next = x.next)
    {m : ℕ} (hf : (f (s.items it)).tag = (0, m)) :
    ∃ t, (s.setItem it f).doSlabsFree a c = .ok t ∧ t.Inv ∧ t.layout = s.layout ∧
      t.held = Function.update s.held a none := by
  obtain ⟨free, hlists, hstock⟩ := h.stock
  obtain ⟨htag, hc⟩ := held_eq_some.mp ha
  have hid := (h.of_held ha).1.isClass h.arena
  obtain ⟨hretagged, hrtag⟩ := hlists.retag hit hdata hnext
  obtain ⟨t, ht, htlists, hlayout, httag⟩ := hretagged.doSlabsFree a hid
    fun j hj => by
      have hfree := ((hstock.mem_free j a).mp hj).2
      rw [htag] at hfree
      exact Stock.not_free hc hfree
  rw [hrtag, Function.update_self, Option.getD_some, Function.update_idem, hf] at httag
  have htstock := hstock.give htag hc m
  rw [← httag] at htstock
  have hlayout' : t.layout = s.layout := hlayout
  refine ⟨t, ht, h.of_stock hlayout' htlists htstock, hlayout', ?_⟩
  rw [held_of_tag httag, if_pos rfl]

/-- A chunk that is held can be freed. -/
theorem Inv.sbFree (h : s.Inv) (ha : s.held a = some (c, n)) :
    ∃ t, s.sbFree a = .ok (t, n) ∧ t.Inv ∧ t.layout = s.layout ∧
      t.held = Function.update s.held a none := by
  obtain ⟨hchunk, hclass, -⟩ := h.of_held ha
  obtain ⟨it, hit, hclsid, hsize⟩ := item_of_held ha
  obtain ⟨t, ht, hrest⟩ := h.release ha hit (f := fun x => { x with slabsClsid := 0, size := 0 })
    (fun _ => rfl) (fun _ => rfl) rfl
  refine ⟨t, ?_, hrest⟩
  rw [Allocator.sbFree, if_neg (h.memLimit_ne_zero hchunk), hit]
  simp only [hclsid, hsize, h.data hit, hclass, ne_eq, not_true, if_false, ht]
  rfl

/-! ## Classes of sizes -/

/-- The loop of `slabs_clsid` ends at a class that is large enough, or the last is too small. -/
theorem clsidFrom_cases : ∀ {fuel res : ℕ}, powerSmallest ≤ res → res ≤ s.powerLargest →
    res + fuel = s.powerLargest + 1 →
    s.clsidFrom n fuel res = 0 ∧ (s.slabclass s.powerLargest).size < n ∨
      s.layout.IsClass (s.clsidFrom n fuel res) ∧ n ≤ s.layout.size (s.clsidFrom n fuel res) := by
  intro fuel
  induction fuel with
  | zero =>
    intro res _ hle hfuel
    omega
  | succ fuel ih =>
    intro res hge hle hfuel
    rw [clsidFrom]
    split
    next hlarge =>
      split
      next hlast => exact .inl ⟨rfl, hlast ▸ hlarge⟩
      next hlast => exact ih (Nat.le_succ_of_le hge) (by omega) (by omega)
    next hsmall => exact .inr ⟨⟨hge, hle⟩, Nat.le_of_not_lt hsmall⟩

theorem slabsClsid_cases (hc : s.layout.Classes) : s.slabsClsid n = 0 ∧ (n = 0 ∨ itemSizeMax < n) ∨
    s.layout.IsClass (s.slabsClsid n) ∧ n ≤ s.layout.size (s.slabsClsid n) := by
  rw [slabsClsid]
  split
  next hn => exact .inl ⟨rfl, .inl hn⟩
  next =>
    rcases clsidFrom_cases (s := s) (n := n) le_rfl hc.last.1 (Nat.add_comm _ _) with h | h
    · exact .inl ⟨h.1, .inr (hc.size_last ▸ h.2)⟩
    · exact .inr h

/-- No class beyond the last is ever named. -/
theorem slabsClsid_le (hc : s.layout.Classes) (n : ℕ) : s.slabsClsid n ≤ s.powerLargest := by
  rcases slabsClsid_cases (n := n) hc with ⟨h, -⟩ | ⟨h, -⟩
  · rw [h]
    exact Nat.zero_le _
  · exact h.2

/-- A block of at least the size of a line is a page. -/
theorem slabsClsid_line (hc : s.layout.Classes) (hn : itemSizeMax ≤ n) (hid : s.slabsClsid n ≠ 0) :
    s.layout.size (s.slabsClsid n) = itemSizeMax := by
  rcases slabsClsid_cases (n := n) hc with ⟨h, -⟩ | ⟨h, hle⟩
  · exact absurd h hid
  · exact le_antisymm (hc.size_le _ h) (hn.trans hle)

/-! ## `slabs_init` -/

variable {factor : Factor} {limit : BitVec 64} {malloced base : ℕ}

theorem filledClasses_filled (hf : factor.AtLeastOne) :
    powerSmallest ≤ (filledClasses factor).1 ∧ (filledClasses factor).1 ≤ powerLargestMax ∧
      FilledBelow (filledClasses factor).1 (filledClasses factor).2 :=
  fillClasses_filled hf (by decide) rfl
    ⟨fun j h1 h2 => absurd h2 (Nat.not_lt.mpr h1), fun _ _ => rfl⟩

/-- A class before any page is made: one that is filled in, the last, or none. -/
theorem blank_slabclass (hf : factor.AtLeastOne) (j : ℕ) :
    (j = (filledClasses factor).1 ∧ (blank limit factor malloced base).slabclass j =
      { Class.cleared with size := itemSizeMax, perslab := 1 }) ∨
    (powerSmallest ≤ j ∧ j < (filledClasses factor).1 ∧
      ((blank limit factor malloced base).slabclass j).Filled) ∨
    (¬ (powerSmallest ≤ j ∧ j ≤ (filledClasses factor).1) ∧
      (blank limit factor malloced base).slabclass j = Class.cleared) := by
  obtain ⟨-, -, hfilled⟩ := filledClasses_filled hf
  rcases eq_or_ne j (filledClasses factor).1 with heq | hne
  · left
    refine ⟨heq, ?_⟩
    simp only [blank, heq, Function.update_self]
    rw [hfilled.cleared _ fun hx => lt_irrefl _ hx.2]
  · right
    simp only [blank, Function.update_of_ne hne]
    by_cases hj : powerSmallest ≤ j ∧ j < (filledClasses factor).1
    · exact .inl ⟨hj.1, hj.2, hfilled.filled j hj.1 hj.2⟩
    · exact .inr ⟨fun hx => hj ⟨hx.1, lt_of_le_of_ne hx.2 hne⟩, hfilled.cleared j hj⟩

/-- A class has no chunk before it has a page. -/
theorem blank_empty (hf : factor.AtLeastOne) (j : ℕ) :
    ((blank limit factor malloced base).slabclass j).slots = none ∧
      ((blank limit factor malloced base).slabclass j).slCurr = 0 ∧
      ((blank limit factor malloced base).slabclass j).slabList = [] := by
  rcases blank_slabclass hf j with ⟨-, h⟩ | ⟨-, -, h⟩ | ⟨-, h⟩
  · rw [h]
    exact ⟨rfl, rfl, rfl⟩
  · rw [h.eq]
    exact ⟨rfl, rfl, rfl⟩
  · rw [h]
    exact ⟨rfl, rfl, rfl⟩

theorem blank_classes (hf : factor.AtLeastOne) :
    (blank limit factor malloced base).layout.Classes := by
  obtain ⟨hge, hle, -⟩ := filledClasses_filled hf
  have hclass : ∀ j, (blank limit factor malloced base).layout.IsClass j →
      0 < ((blank limit factor malloced base).slabclass j).size ∧
        ((blank limit factor malloced base).slabclass j).size ≤ itemSizeMax ∧
        ((blank limit factor malloced base).slabclass j).perslab =
          itemSizeMax / ((blank limit factor malloced base).slabclass j).size := by
    intro j hj
    rcases blank_slabclass hf j with ⟨-, h⟩ | ⟨-, -, h⟩ | ⟨hno, -⟩
    · rw [h]
      exact ⟨by decide, le_rfl, by decide⟩
    · refine ⟨h.pos, h.le, ?_⟩
      conv_lhs => rw [h.eq]
    · exact absurd hj hno
  refine ⟨⟨hge, le_rfl⟩, hle, fun j hj => (hclass j hj).1, fun j hj => (hclass j hj).2.1,
    fun j hj => (hclass j hj).2.2, ?_⟩
  rcases blank_slabclass hf (filledClasses factor).1 with
    ⟨-, h⟩ | ⟨-, h, -⟩ | ⟨hno, -⟩
  · exact congrArg Class.size h
  · exact absurd h (lt_irrefl _)
  · exact absurd ⟨hge, le_rfl⟩ hno

theorem blank_inv (hf : factor.AtLeastOne) : (blank limit factor malloced base).Inv := by
  have hlist : ∀ i p, p ∉ (blank limit factor malloced base).layout.slabList i := by
    intro i p hp
    have hp' : p ∈ ((blank limit factor malloced base).slabclass i).slabList := hp
    rw [(blank_empty hf i).2.2] at hp'
    cases hp'
  have hchunk : ∀ i a, ¬ (blank limit factor malloced base).layout.IsChunk i a := by
    rintro i a ⟨p, hp, -⟩
    exact hlist i p hp
  refine ⟨blank_classes hf, ⟨rfl, ⟨0, ?_⟩, fun i p hp => absurd hp (hlist i p),
    fun i j p hp => absurd hp (hlist i p)⟩, fun _ => [], ⟨nofun, fun i => ⟨[], ?_, rfl⟩, fun i => ?_,
    nofun⟩, ⟨fun i a => ⟨nofun, fun hx => absurd hx.1 (hchunk i a)⟩,
    fun i a hi => absurd hi (hchunk i a), nofun,
    fun i j a hi => absurd hi (hchunk i a)⟩⟩
  · rw [Nat.zero_mul, Nat.add_zero]
    rfl
  · rw [(blank_empty hf i).1]
    exact .nil
  · exact (blank_empty hf i).2.1

/-- Preallocation hands nothing out. -/
theorem Inv.preallocate {k : ℕ} (h : s.Inv) (hi : powerSmallest ≤ i) (hk : i + k ≤ s.powerLargest + 1)
    (ht : Allocator.preallocate k i s = .ok t) :
    t.Inv ∧ s.layout.Grows t.layout ∧ t.held = s.held ∧ (0 < k → s.memBase ≠ 0) := by
  induction k generalizing i s with
  | zero =>
    cases ht
    exact ⟨h, .refl _, rfl, nofun⟩
  | succ k ih =>
    have hid : s.layout.IsClass i := by
      simp only [Layout.IsClass, layout]
      omega
    rcases h.newslab hid with ⟨hnew, -⟩ | ⟨u, hnew, hu, hulayout, huheld, hbase, -⟩
    · rw [Allocator.preallocate, hnew] at ht
      cases ht
    · rw [Allocator.preallocate, hnew] at ht
      have hgrows : s.layout.Grows u.layout := hulayout ▸ .addPage _ _
      have hpower : u.powerLargest = s.powerLargest := hgrows.powerLargest
      obtain ⟨hinv, hgrows', hheld, -⟩ := ih hu (Nat.le_succ_of_le hi) (by omega) ht
      exact ⟨hinv, hgrows.trans hgrows', hheld.trans huheld, fun _ => hbase⟩

theorem Inv.of_slabsInit (hf : factor.AtLeastOne)
    (h : slabsInit limit factor malloced base = .ok s) :
    s.Inv ∧ s.memBase = base ∧ s.memLimit = limit.toNat ∧ base ≠ 0 ∧ ∀ a, s.held a = none := by
  have hpower : powerSmallest ≤ (filledClasses factor).1 := (filledClasses_filled hf).1
  obtain ⟨hinv, hgrows, hheld, hbase⟩ := (blank_inv hf).preallocate le_rfl
    (by rw [Nat.add_comm]; exact Nat.succ_le_succ (min_le_right _ _)) h
  exact ⟨hinv, hgrows.memBase, hgrows.memLimit, hbase (lt_min (by decide) hpower),
    fun a => congrFun hheld a⟩

/-! ## Alignment -/

/-- Rounding up does not go down, if the sum does not overflow. -/
theorem le_align {x a : BitVec 64} (h : x.toNat + (a - 1).toNat < 2 ^ 64) :
    x.toNat ≤ (align x a).toNat := by
  rw [align]
  generalize a - 1 = m at h ⊢
  have hsum : (x + m).toNat = x.toNat + m.toNat := by
    rw [BitVec.toNat_add, Nat.mod_eq_of_lt h]
  -- what is masked out and what is left
  have hparts : ((x + m) &&& ~~~m) + ((x + m) &&& m) = x + m := by
    rw [BitVec.add_eq_or_of_and_eq_zero, ← BitVec.and_or_distrib_left, BitVec.not_or_self,
      BitVec.and_allOnes]
    ext i hi
    simp only [BitVec.getElem_and, BitVec.getElem_not, BitVec.getElem_zero]
    cases (x + m)[i] <;> cases m[i] <;> rfl
  have hmask : ((x + m) &&& m).toNat ≤ m.toNat := by
    rw [BitVec.toNat_and]
    exact Nat.and_le_right
  have hadd := congrArg BitVec.toNat hparts
  rw [BitVec.toNat_add, hsum] at hadd
  have := ((x + m) &&& ~~~m).isLt
  omega

/-- Rounded up to lines, a size that may be asked for is a line at least. -/
theorem line_le_align {x : BitVec 64} (hx : Requested x) :
    itemSizeMax ≤ (align x (.ofNat 64 lineSize)).toNat := by
  have hmask : (BitVec.ofNat 64 lineSize - 1).toNat = 2 ^ 12 - 1 := by decide
  have hge : x.toNat ≤ (align x (.ofNat 64 lineSize)).toNat := by
    refine le_align ?_
    have := hx.2
    simp only [itemSizeMax, lineSize] at this
    omega
  have hzero : align x (.ofNat 64 lineSize) &&& (BitVec.ofNat 64 lineSize - 1) = 0#64 := by
    rw [align, BitVec.and_assoc, BitVec.not_and_self]
    exact BitVec.and_zero
  have hmod := congrArg BitVec.toNat hzero
  rw [BitVec.toNat_and, hmask, Nat.and_two_pow_sub_one_eq_mod] at hmod
  have hpos := hx.1
  simp only [itemSizeMax, lineSize, BitVec.toNat_zero] at hmod hge ⊢
  omega

end Allocator

end Slab

end Ting
