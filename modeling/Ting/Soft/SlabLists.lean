/-
# `Ting.Soft.SlabLists` — the free lists, and what else there is of an allocator

Apart from the links between items an allocator is three things: its `Layout`, which is the sizes
of the classes and the pages they have; a list of free chunks for each class; and for each chunk a
`tag`, the class and the size that `stats_map` leads to.  `Lists` says that the links are those of
the free lists, and each operation on items is then an operation on the three.
-/
import Ting.Lib.Linked
import Ting.Lib.Total
import Ting.Soft.SlabItems

namespace Ting

namespace Slab

open SlabAllocator (itemSizeMax powerLargestMax)

/-- Of an allocator, what the items have no part in. -/
structure Layout where
  size : ℕ → ℕ
  perslab : ℕ → ℕ
  slabList : ℕ → List ℕ
  memLimit : ℕ
  memMalloced : ℕ
  powerLargest : ℕ
  memBase : ℕ
  memCurrent : ℕ
  memAvail : ℕ

namespace Item

/-- The class and the size of an item. -/
def tag (x : Item) : ℕ × ℕ := (x.slabsClsid, x.size)

end Item

namespace Allocator

variable {s t : Allocator} {a id it ptr size : ℕ} {free : ℕ → List ℕ}

def layout (s : Allocator) : Layout where
  size i := (s.slabclass i).size
  perslab i := (s.slabclass i).perslab
  slabList i := (s.slabclass i).slabList
  memLimit := s.memLimit
  memMalloced := s.memMalloced
  powerLargest := s.powerLargest
  memBase := s.memBase
  memCurrent := s.memCurrent
  memAvail := s.memAvail

/-- What `stats_map` says of an address. -/
def tag (s : Allocator) (a : ℕ) : Option (ℕ × ℕ) :=
  (s.statsMap a).map fun it => (s.items it).tag

/-! ## What assignments leave alone -/

theorem setItem_items {ν : Type} {g : Item → ν} {f : Item → Item} (hg : ∀ x, g (f x) = g x)
    (j : ℕ) : g ((s.setItem it f).items j) = g (s.items j) := by
  rcases eq_or_ne j it with rfl | hj
  · simp only [setItem, Function.update_self, hg]
  · simp only [setItem, Function.update_of_ne hj]

theorem setClass_slabclass {ν : Type} {g : Class → ν} {f : Class → Class}
    (hg : ∀ p, g (f p) = g p) (j : ℕ) : g ((s.setClass id f).slabclass j) = g (s.slabclass j) := by
  rcases eq_or_ne j id with rfl | hj
  · simp only [setClass, Function.update_self, hg]
  · simp only [setClass, Function.update_of_ne hj]

theorem setClass_layout {f : Class → Class} (hsize : ∀ p, (f p).size = p.size)
    (hper : ∀ p, (f p).perslab = p.perslab) (hlist : ∀ p, (f p).slabList = p.slabList) :
    (s.setClass id f).layout = s.layout := by
  simp only [layout, setClass_slabclass hsize, setClass_slabclass hper, setClass_slabclass hlist]
  rfl

@[simp] theorem setPrev_layout (o p : Option ℕ) : (s.setPrev o p).layout = s.layout := by
  cases o <;> rfl

@[simp] theorem setPrev_slabclass (o p : Option ℕ) : (s.setPrev o p).slabclass = s.slabclass := by
  cases o <;> rfl

@[simp] theorem setPrev_statsMap (o p : Option ℕ) : (s.setPrev o p).statsMap = s.statsMap := by
  cases o <;> rfl

@[simp] theorem setPrev_itemNum (o p : Option ℕ) : (s.setPrev o p).itemNum = s.itemNum := by
  cases o <;> rfl

/-- Setting `prev` changes no other field of any item. -/
theorem setPrev_items {ν : Type} {g : Item → ν} (hg : ∀ x p, g { x with prev := p } = g x)
    (o p : Option ℕ) (j : ℕ) : g ((s.setPrev o p).items j) = g (s.items j) := by
  cases o with
  | none => rfl
  | some i => exact setItem_items (fun x => hg x p) j

/-- Of an item that is linked, `next` and `data` are new. -/
theorem linkSlot_items {ν : Type} {g : Item → ν} (hg : ∀ x p, g { x with prev := p } = g x) (j : ℕ) :
    g ((s.linkSlot it ptr id).items j) = Function.update (fun j => g (s.items j)) it
      (g { s.items it with data := ptr, next := (s.slabclass id).slots }) j := by
  refine (setPrev_items hg _ _ j).trans ?_
  rcases eq_or_ne j it with rfl | hj
  · simp only [setItem, Function.update_self]
    exact hg { s.items j with data := ptr, next := (s.slabclass id).slots } none
  · simp only [setItem, Function.update_of_ne hj]

@[simp] theorem linkSlot_layout : (s.linkSlot it ptr id).layout = s.layout := by
  rw [linkSlot]
  refine (setClass_layout ?_ ?_ ?_).trans ((setPrev_layout _ _).trans ?_)
  · exact fun _ => rfl
  · exact fun _ => rfl
  · exact fun _ => rfl
  · rfl

@[simp] theorem linkSlot_statsMap : (s.linkSlot it ptr id).statsMap = s.statsMap :=
  setPrev_statsMap _ _

@[simp] theorem linkSlot_itemNum : (s.linkSlot it ptr id).itemNum = s.itemNum :=
  setPrev_itemNum _ _

theorem linkSlot_slabclass : (s.linkSlot it ptr id).slabclass = Function.update s.slabclass id
    { s.slabclass id with
      slots := some it, slCurr := ((s.slabclass id).slCurr + 1) % 2 ^ 32 } := by
  simp only [linkSlot, setClass, setPrev_slabclass]
  rfl

@[simp] theorem linkSlot_tag : (s.linkSlot it ptr id).tag = s.tag := by
  funext a
  simp only [tag, linkSlot_statsMap]
  congr 1
  funext j
  rw [linkSlot_items (g := Item.tag) fun _ _ => rfl]
  rcases eq_or_ne j it with rfl | hj
  · rw [Function.update_self]
    rfl
  · rw [Function.update_of_ne hj]

/-- Of an item that is taken off its list, the class and the size are new. -/
theorem unlinkSlot_items {ν : Type} {g : Item → ν} (hg : ∀ x p, g { x with prev := p } = g x)
    (j : ℕ) : g ((s.unlinkSlot it size id).items j) = Function.update (fun j => g (s.items j)) it
      (g { s.items it with size := size, slabsClsid := id % 256 }) j := by
  simp only [unlinkSlot, setClass, setItem]
  rcases eq_or_ne j it with rfl | hj
  · simp only [Function.update_self]
    exact setPrev_items (g := fun x => g { x with size := size, slabsClsid := id % 256 })
      (fun x p => hg { x with size := size, slabsClsid := id % 256 } p) _ _ _
  · simp only [Function.update_of_ne hj]
    exact setPrev_items hg _ _ j

@[simp] theorem unlinkSlot_layout : (s.unlinkSlot it size id).layout = s.layout := by
  rw [unlinkSlot]
  refine (setClass_layout ?_ ?_ ?_).trans (Eq.trans ?_ (setPrev_layout (s.items it).next none))
  · exact fun _ => rfl
  · exact fun _ => rfl
  · exact fun _ => rfl
  · rfl

@[simp] theorem unlinkSlot_statsMap : (s.unlinkSlot it size id).statsMap = s.statsMap :=
  setPrev_statsMap _ _

@[simp] theorem unlinkSlot_itemNum : (s.unlinkSlot it size id).itemNum = s.itemNum :=
  setPrev_itemNum _ _

theorem unlinkSlot_slabclass : (s.unlinkSlot it size id).slabclass =
    Function.update s.slabclass id { s.slabclass id with
      slots := (s.items it).next, slCurr := (s.slabclass id).slCurr - 1 } := by
  simp only [unlinkSlot, setClass, setItem, setPrev_slabclass]

/-- The class of a size depends on the sizes of the classes only. -/
theorem slabsClsid_congr (hsize : s.layout.size = t.layout.size)
    (hpower : s.powerLargest = t.powerLargest) : s.slabsClsid = t.slabsClsid := by
  have hsize' : ∀ i, (s.slabclass i).size = (t.slabclass i).size := congrFun hsize
  have hfrom : ∀ n fuel res, s.clsidFrom n fuel res = t.clsidFrom n fuel res := by
    intro n fuel
    induction fuel with
    | zero => exact fun _ => rfl
    | succ fuel ih =>
      intro res
      simp only [clsidFrom, hsize', hpower, ih]
  funext n
  simp only [slabsClsid, hfrom, hpower]

theorem slabsClsid_layout (h : s.layout = t.layout) : s.slabsClsid = t.slabsClsid :=
  slabsClsid_congr (congrArg Layout.size h) (congrArg Layout.powerLargest h)

/-! ## The links are those of the free lists -/

/-- The item that `stats_map` has for an address notes that address. -/
def Known (s : Allocator) : Prop :=
  ∀ a it, s.statsMap a = some it → (s.items it).data = a ∧ it < s.itemNum

/-- The chunks of `free id` are, in this order, those on the free list of class `id`. -/
structure Lists (s : Allocator) (free : ℕ → List ℕ) : Prop where
  known : s.Known
  linked : ∀ i, ∃ l, Linked.Chain (fun it => (s.items it).next) (s.slabclass i).slots l ∧
    l.map some = (free i).map s.statsMap
  count : ∀ i, (s.slabclass i).slCurr = (free i).length % 2 ^ 32
  apart : ∀ i j a, a ∈ free i → a ∈ free j → i = j

/-- Two addresses have two items. -/
theorem Known.inj (h : s.Known) {b : ℕ} (ha : s.statsMap a = some it)
    (hb : s.statsMap b = some it) : a = b :=
  (h a it ha).1.symm.trans (h b it hb).1

/-- Items that `stats_map` has for some addresses note those addresses. -/
theorem Known.map_data (h : s.Known) {l as : List ℕ} (hmap : l.map some = as.map s.statsMap) :
    l.map (fun it => (s.items it).data) = as := by
  induction as generalizing l with
  | nil =>
    rw [List.map_eq_nil_iff.mp hmap]
    rfl
  | cons a as ih =>
    obtain ⟨it, l, rfl, hit, hrest⟩ := List.map_eq_cons_iff.mp hmap
    rw [List.map_cons, ih hrest, (h a it hit.symm).1]

/-- Looking up the item of an address makes one at most. -/
theorem Known.itemAt (h : s.Known) (ptr : ℕ) : ∃ it x num,
    s.itemAt ptr = ({ s with
      statsMap := Function.update s.statsMap ptr (some it)
      items := Function.update s.items it x
      itemNum := num }, it) ∧
    (∀ b, b ≠ ptr → s.statsMap b ≠ some it) ∧ it < num ∧ s.itemNum ≤ num ∧
    x.tag = (s.tag ptr).getD (0, 0) := by
  cases hstats : s.statsMap ptr with
  | some it =>
    refine ⟨it, s.items it, s.itemNum, ?_, fun b hb hit => hb (h.inj hit hstats),
      (h ptr it hstats).2, le_rfl, ?_⟩
    · rw [Function.update_eq_self, Function.update_eq_self_iff.mpr hstats.symm]
      simp only [Allocator.itemAt, hstats]
    · simp only [tag, hstats, Option.map_some, Option.getD_some]
  | none =>
    refine ⟨s.itemNum, Item.new, s.itemNum + 1, ?_, fun b _ hit => ?_, Nat.lt_succ_self _,
      Nat.le_succ _, ?_⟩
    · simp only [Allocator.itemAt, hstats]
    · exact lt_irrefl _ (h b _ hit).2
    · simp only [tag, hstats, Option.map_none, Option.getD_none]
      rfl

/-- A chunk that is on no list is put in front of one. -/
theorem Lists.doSlabsFree (h : s.Lists free) (ptr : ℕ)
    (hid : powerSmallest ≤ id ∧ id ≤ s.powerLargest) (hptr : ∀ i, ptr ∉ free i) :
    ∃ t, s.doSlabsFree ptr id = .ok t ∧
      t.Lists (Function.update free id (ptr :: free id)) ∧ t.layout = s.layout ∧
      t.tag = Function.update s.tag ptr (some ((s.tag ptr).getD (0, 0))) := by
  obtain ⟨it, x, num, hitem, hother, hnum, hle, htag⟩ := h.known.itemAt ptr
  have hrange : ¬ (id < powerSmallest ∨ id > s.powerLargest) := by omega
  rw [Allocator.doSlabsFree, if_neg hrange, hitem]
  refine ⟨_, rfl, ⟨fun b j hb => ?_, fun i => ?_, fun i => ?_, fun i j b hi hj => ?_⟩,
    linkSlot_layout, ?_⟩
  · simp only [linkSlot_statsMap] at hb
    simp only [linkSlot_items (g := Item.data) fun _ _ => rfl, linkSlot_itemNum]
    rcases eq_or_ne b ptr with rfl | hne
    · rw [Function.update_self] at hb
      cases hb
      exact ⟨Function.update_self _ _ _, hnum⟩
    · rw [Function.update_of_ne hne] at hb
      have hj : j ≠ it := fun hx => hother b hne (hx ▸ hb)
      simp only [Function.update_of_ne hj]
      exact ⟨(h.known b j hb).1, (h.known b j hb).2.trans_le hle⟩
  · obtain ⟨l, hl, hmap⟩ := h.linked i
    have hstats : ∀ j, (free j).map (Function.update s.statsMap ptr (some it)) =
        (free j).map s.statsMap := by
      intro j
      refine List.map_congr_left fun b hb => Function.update_of_ne ?_ _ _
      rintro rfl
      exact hptr j hb
    -- the item that is linked was on none of the lists
    have hit : it ∉ l := by
      intro hmem
      obtain ⟨b, hb, heq⟩ := List.mem_map.mp (hmap ▸ List.mem_map_of_mem (f := some) hmem)
      rcases eq_or_ne b ptr with rfl | hne
      · exact hptr i hb
      · exact hother b hne heq
    have hnext : ∀ j, ((linkSlot { s with
        statsMap := Function.update s.statsMap ptr (some it)
        items := Function.update s.items it x
        itemNum := num } it ptr id).items j).next =
        Function.update (fun j => (s.items j).next) it (s.slabclass id).slots j := by
      intro j
      rw [linkSlot_items (g := Item.next) fun _ _ => rfl]
      rcases eq_or_ne j it with rfl | hj
      · simp only [Function.update_self]
      · simp only [Function.update_of_ne hj]
    simp only [linkSlot_statsMap, linkSlot_slabclass, hnext]
    rcases eq_or_ne i id with rfl | hi
    · refine ⟨it :: l, ?_, ?_⟩
      · rw [Function.update_self]
        exact hl.push hit
      · rw [Function.update_self, List.map_cons, List.map_cons, Function.update_self, hstats, hmap]
    · refine ⟨l, ?_, ?_⟩
      · rw [Function.update_of_ne hi]
        exact hl.update hit _
      · rw [Function.update_of_ne hi, hstats, hmap]
  · rw [linkSlot_slabclass]
    rcases eq_or_ne i id with rfl | hi
    · simp only [Function.update_self, List.length_cons, h.count i, Nat.mod_add_mod]
    · simp only [Function.update_of_ne hi, h.count i]
  · have hown : ∀ k, b ∈ Function.update free id (ptr :: free id) k →
        b ∈ free k ∨ b = ptr ∧ k = id := by
      intro k hk
      rcases eq_or_ne k id with rfl | hne
      · rw [Function.update_self, List.mem_cons] at hk
        exact hk.symm.imp_right fun hx => ⟨hx, rfl⟩
      · rw [Function.update_of_ne hne] at hk
        exact .inl hk
    rcases hown i hi with hi' | ⟨hb, rfl⟩
    · rcases hown j hj with hj' | ⟨rfl, -⟩
      · exact h.apart i j b hi' hj'
      · exact absurd hi' (hptr i)
    · rcases hown j hj with hj' | ⟨-, rfl⟩
      · exact absurd (hb ▸ hj') (hptr j)
      · rfl
  · funext b
    rw [linkSlot_tag]
    rcases eq_or_ne b ptr with rfl | hne
    · simp only [tag, Function.update_self, Option.map_some]
      rw [← tag, htag]
    · simp only [tag, Function.update_of_ne hne]
      cases hb : s.statsMap b with
      | none => rfl
      | some j =>
        have hj : j ≠ it := fun hx => hother b hne (hx ▸ hb)
        simp only [Option.map_some, Function.update_of_ne hj]

/-- The first item of a list is that of the first chunk, and leads to the items of the others. -/
theorem Lists.head (h : s.Lists free) {rest : List ℕ} (hfree : free id = a :: rest) :
    ∃ it l, (s.slabclass id).slots = some it ∧ s.statsMap a = some it ∧
      Linked.Chain (fun it => (s.items it).next) (s.items it).next l ∧
      l.map some = rest.map s.statsMap := by
  obtain ⟨l, hl, hmap⟩ := h.linked id
  rw [hfree, List.map_cons] at hmap
  obtain ⟨it, l, rfl, hhead, htail⟩ := List.map_eq_cons_iff.mp hmap
  obtain ⟨hslots, hl⟩ := hl.of_cons
  exact ⟨it, l, hslots, hhead.symm, hl, htail⟩

/-- A free list that is not counted as empty is not. -/
theorem Lists.exists_cons (h : s.Lists free) (hcurr : (s.slabclass id).slCurr ≠ 0) :
    ∃ a rest, free id = a :: rest := by
  refine List.exists_cons_of_ne_nil fun hnil => hcurr ?_
  rw [h.count, hnil]
  rfl

theorem Lists.headFree (h : s.Lists free) {rest : List ℕ} (hfree : free id = a :: rest) {n : ℕ}
    (htag : s.tag a = some (0, n)) : s.headFree id := by
  obtain ⟨it, l, hslots, hstats, -, -⟩ := h.head hfree
  rw [tag, hstats, Option.map_some, Option.some.injEq] at htag
  have hclass : (s.items it).slabsClsid = 0 := congrArg Prod.fst htag
  simp only [Allocator.headFree, hslots, Option.any_some, hclass, decide_true]

/-- The first chunk of a list is taken off it and given a class and a size. -/
theorem Lists.takeSlot (h : s.Lists free) {rest : List ℕ} (hfree : free id = a :: rest)
    (hcurr : (s.slabclass id).slCurr ≠ 0) (size : ℕ) :
    ∃ t, s.takeSlot size id = .ok (t, a) ∧ t.Lists (Function.update free id rest) ∧
      t.layout = s.layout ∧ t.tag = Function.update s.tag a (some (id % 256, size)) := by
  obtain ⟨it, l, hslots, hstats, hl, hmap⟩ := h.head hfree
  obtain ⟨hdata, -⟩ := h.known a it hstats
  have hnext : ∀ j, ((s.unlinkSlot it size id).items j).next = (s.items j).next := by
    intro j
    rw [unlinkSlot_items (g := Item.next) fun _ _ => rfl]
    exact congrFun (Function.update_eq_self it fun j => (s.items j).next) j
  have hdata' : ∀ j, ((s.unlinkSlot it size id).items j).data = (s.items j).data := by
    intro j
    rw [unlinkSlot_items (g := Item.data) fun _ _ => rfl]
    exact congrFun (Function.update_eq_self it fun j => (s.items j).data) j
  rw [Allocator.takeSlot, hslots]
  refine ⟨s.unlinkSlot it size id, ?_, ⟨fun b j hb => ?_, fun i => ?_, fun i => ?_,
    fun i j b hi hj => ?_⟩, unlinkSlot_layout, ?_⟩
  · simp only [hdata', hdata]
  · rw [unlinkSlot_statsMap] at hb
    rw [hdata', unlinkSlot_itemNum]
    exact h.known b j hb
  · simp only [unlinkSlot_statsMap, unlinkSlot_slabclass, hnext]
    rcases eq_or_ne i id with rfl | hi
    · simp only [Function.update_self]
      exact ⟨l, hl, hmap⟩
    · simp only [Function.update_of_ne hi]
      exact h.linked i
  · rw [unlinkSlot_slabclass]
    rcases eq_or_ne i id with rfl | hi
    · have hcount := h.count i
      rw [hfree, List.length_cons] at hcount
      simp only [Function.update_self]
      omega
    · simp only [Function.update_of_ne hi, h.count i]
  · have hsub : ∀ k, b ∈ Function.update free id rest k → b ∈ free k := by
      intro k hk
      rcases eq_or_ne k id with rfl | hne
      · rw [Function.update_self] at hk
        rw [hfree]
        exact List.mem_cons_of_mem a hk
      · rwa [Function.update_of_ne hne] at hk
    exact h.apart i j b (hsub i hi) (hsub j hj)
  · funext b
    simp only [tag, unlinkSlot_statsMap]
    rcases eq_or_ne b a with rfl | hb
    · rw [Function.update_self, hstats, Option.map_some,
        unlinkSlot_items (g := Item.tag) fun _ _ => rfl, Function.update_self]
      rfl
    · rw [Function.update_of_ne hb]
      cases hj : s.statsMap b with
      | none => simp only [tag, hj, Option.map_none]
      | some j =>
        have hne : j ≠ it := fun hx => hb (h.known.inj hj (hx ▸ hstats))
        rw [Option.map_some, unlinkSlot_items (g := Item.tag) fun _ _ => rfl,
          Function.update_of_ne hne]
        simp only [tag, hj, Option.map_some]

/-- The item of a chunk gets another class or size. -/
theorem Lists.retag (h : s.Lists free) (hstats : s.statsMap a = some it) {f : Item → Item}
    (hdata : ∀ x, (f x).data = x.data) (hnext : ∀ x, (f x).next = x.next) :
    (s.setItem it f).Lists free ∧
      (s.setItem it f).tag = Function.update s.tag a (some (f (s.items it)).tag) := by
  refine ⟨⟨fun b j hb => ?_, fun i => ?_, h.count, h.apart⟩, ?_⟩
  · rw [setItem_items (g := Item.data) hdata]
    exact h.known b j hb
  · simp only [setItem_items (g := Item.next) hnext]
    exact h.linked i
  · funext b
    rcases eq_or_ne b a with rfl | hb
    · simp only [tag, setItem, hstats, Option.map_some, Function.update_self]
    · rw [Function.update_of_ne hb]
      cases hj : s.statsMap b with
      | none => simp only [tag, setItem, hj, Option.map_none]
      | some j =>
        have hne : j ≠ it := fun hx => hb (h.known.inj hj (hx ▸ hstats))
        simp only [tag, setItem, hj, Option.map_some, Function.update_of_ne hne]

/-- No chunk is on a list twice. -/
theorem Lists.nodup (h : s.Lists free) (i : ℕ) : (free i).Nodup := by
  obtain ⟨l, hl, hmap⟩ := h.linked i
  refine List.Nodup.of_map s.statsMap ?_
  rw [← hmap]
  exact hl.nodup.map (Option.some_injective _)

end Allocator

end Slab

end Ting
