/-
# `Ting.Soft.SlabPages` — size classes and pages

The two things that are said of a `Layout`.  The classes that `slabs_init` makes with a factor of
at least 1 have sizes from 1 up to that of a line, and there are no more of them than
`POWER_LARGEST`: the class that the loop inserts at a multiple of a line is never needed, as no
size gets beyond one.  The pages of all classes are different lines of the arena, so that two
chunks never overlap.
-/
import Ting.Soft.SlabLists

namespace Ting

namespace Slab

open SlabAllocator (itemSizeMax powerLargestMax)

/-! ## Factors -/

namespace Factor

variable {factor : Factor} {size : ℕ}

theorem AtLeastOne.quotient_le (h : factor.AtLeastOne) : factor.quotient ≤ itemSizeMax := by
  cases factor with
  | finite q =>
    have hq : (0 : ℚ) < q := zero_lt_one.trans_le h
    exact Rounding.roundTo_le (div_pos (by norm_num [itemSizeMax, lineSize]) hq)
      (by norm_num [itemSizeMax, lineSize]) (div_le_self (Nat.cast_nonneg _) h)
  | infinite => exact Nat.cast_nonneg _

/-- A size does not shrink as long as the loop goes on. -/
theorem AtLeastOne.le_product (h : factor.AtLeastOne) (hsize : 0 < size)
    (hgo : 0 < factor.quotient) (hbig : size < 2 ^ 53) : size ≤ factor.product size := by
  cases factor with
  | finite q =>
    have hone : (1 : ℚ) ≤ q := h
    have hpos : (0 : ℚ) < size := by exact_mod_cast hsize
    have hround : (size : ℚ) ≤ Rounding.roundTo 53 (size * q) :=
      Rounding.le_roundTo (by norm_num) (mul_pos hpos (zero_lt_one.trans_le hone)) hbig
        (le_mul_of_one_le_right hpos.le hone)
    have hfloor : (size : ℤ) ≤ ⌊Rounding.roundTo 53 (size * q)⌋ :=
      Int.le_floor.mpr (by exact_mod_cast hround)
    simp only [product]
    omega
  | infinite => exact absurd hgo (lt_irrefl 0)

end Factor

/-! ## The classes of `slabs_init` -/

/-- A class that `slabs_init` has filled in and that has no page yet. -/
structure Class.Filled (p : Class) : Prop where
  pos : 0 < p.size
  le : p.size ≤ itemSizeMax
  eq : p = { Class.cleared with size := p.size, perslab := itemSizeMax / p.size }

/-- So many classes from 1 on are filled in, and no others. -/
structure FilledBelow (n : ℕ) (cls : ℕ → Class) : Prop where
  filled : ∀ j, powerSmallest ≤ j → j < n → (cls j).Filled
  cleared : ∀ j, ¬ (powerSmallest ≤ j ∧ j < n) → cls j = Class.cleared

theorem FilledBelow.push {n size : ℕ} {cls : ℕ → Class} (h : FilledBelow n cls)
    (hn : powerSmallest ≤ n) (hpos : 0 < size) (hle : size ≤ itemSizeMax) :
    FilledBelow (n + 1) (Function.update cls n
      { cls n with size := size, perslab := itemSizeMax / size }) := by
  refine ⟨fun j h1 h2 => ?_, fun j hj => ?_⟩
  · rcases eq_or_ne j n with rfl | hne
    · rw [Function.update_self, h.cleared j (fun hx => lt_irrefl _ hx.2)]
      exact ⟨hpos, hle, rfl⟩
    · rw [Function.update_of_ne hne]
      exact h.filled j h1 (by omega)
  · have hne : j ≠ n := by
      rintro rfl
      exact hj ⟨hn, Nat.lt_succ_self _⟩
    rw [Function.update_of_ne hne]
    exact h.cleared j (fun hx => hj ⟨hx.1, Nat.lt_succ_of_lt hx.2⟩)

namespace Allocator

variable {factor : Factor}

/-- The loop fills in classes up to one that it leaves to be the last. -/
theorem fillClasses_filled (hf : factor.AtLeastOne) : ∀ {fuel i size preSize : ℕ}
    {cls : ℕ → Class}, 0 < size → i + fuel + 1 = powerLargestMax → FilledBelow (i + 1) cls →
    powerSmallest ≤ (fillClasses factor fuel i size preSize cls).1 ∧
      (fillClasses factor fuel i size preSize cls).1 ≤ powerLargestMax ∧
      FilledBelow (fillClasses factor fuel i size preSize cls).1
        (fillClasses factor fuel i size preSize cls).2 := by
  intro fuel
  induction fuel with
  | zero =>
    intro i size preSize cls _ hfuel hcls
    rw [fillClasses]
    exact ⟨Nat.le_add_left 1 i, by omega, hcls⟩
  | succ fuel ih =>
    intro i size preSize cls hpos hfuel hcls
    rw [fillClasses]
    simp only
    generalize hround : (if size % 8 ≠ 0 then size + (8 - size % 8) else size) = size'
    by_cases hgo : i + 1 < powerLargestMax ∧ (size : ℚ) ≤ factor.quotient
    · have hle : size ≤ itemSizeMax := by exact_mod_cast hgo.2.trans hf.quotient_le
      have hle' : size' ≤ itemSizeMax := by
        simp only [itemSizeMax, lineSize] at hle ⊢
        split at hround <;> omega
      have hpos' : 0 < size' := by split at hround <;> omega
      -- no class is inserted, as a size beyond a line would be needed
      have hextra : ¬ (preSize / lineSize < size' / lineSize ∧ size' % lineSize ≠ 0) := by
        simp only [itemSizeMax, lineSize] at hle' ⊢
        omega
      have hquotient : 0 < factor.quotient := lt_of_lt_of_le (by exact_mod_cast hpos) hgo.2
      have hnext : 0 < factor.product size' := hpos'.trans_le
        (hf.le_product hpos' hquotient (hle'.trans_lt (by norm_num [itemSizeMax, lineSize])))
      rw [if_pos hgo, if_neg hextra]
      exact ih hnext (by omega) (hcls.push (Nat.le_add_left 1 i) hpos' hle')
    · rw [if_neg hgo]
      exact ⟨Nat.le_add_left 1 i, by omega, hcls⟩

end Allocator

/-! ## Layouts -/

namespace Layout

variable {y y' : Layout} {a b i j n : ℕ}

/-- A class that there is. -/
def IsClass (y : Layout) (i : ℕ) : Prop := powerSmallest ≤ i ∧ i ≤ y.powerLargest

/-- The sizes of the classes, the last of which is for a whole line. -/
structure Classes (y : Layout) : Prop where
  last : y.IsClass y.powerLargest
  le : y.powerLargest ≤ powerLargestMax
  pos : ∀ i, y.IsClass i → 0 < y.size i
  size_le : ∀ i, y.IsClass i → y.size i ≤ itemSizeMax
  perslab : ∀ i, y.IsClass i → y.perslab i = itemSizeMax / y.size i
  size_last : y.size y.powerLargest = itemSizeMax

/-- The pages are lines of the part of the arena that is used, and no two classes share one. -/
structure Arena (y : Layout) : Prop where
  room : y.memCurrent + y.memAvail = y.memBase + y.memLimit
  used : ∃ n, y.memCurrent = y.memBase + n * itemSizeMax
  page : ∀ i p, p ∈ y.slabList i → y.IsClass i ∧ p + itemSizeMax ≤ y.memCurrent ∧
    ∃ k, p = y.memBase + k * itemSizeMax
  apart : ∀ i j p, p ∈ y.slabList i → p ∈ y.slabList j → i = j

/-- A chunk of a class: a piece of one of its pages. -/
def IsChunk (y : Layout) (i a : ℕ) : Prop :=
  ∃ p ∈ y.slabList i, ∃ k < y.perslab i, a = p + k * y.size i

/-- A chunk lies in its page. -/
theorem Classes.chunk_le (hc : y.Classes) (hi : y.IsClass i) {k : ℕ} (hk : k < y.perslab i) :
    k * y.size i + y.size i ≤ itemSizeMax := by
  rw [hc.perslab i hi] at hk
  calc k * y.size i + y.size i = (k + 1) * y.size i := (Nat.succ_mul k _).symm
    _ ≤ itemSizeMax / y.size i * y.size i := Nat.mul_le_mul_right _ hk
    _ ≤ itemSizeMax := Nat.div_mul_le_self _ _

/-- Two chunks do not overlap, unless they are the same chunk of one class. -/
theorem IsChunk.apart (hc : y.Classes) (ha : y.Arena) (hi : y.IsChunk i a) (hj : y.IsChunk j b) :
    a + y.size i ≤ b ∨ b + y.size j ≤ a ∨ i = j ∧ a = b := by
  obtain ⟨p, hp, k, hk, rfl⟩ := hi
  obtain ⟨q, hq, m, hm, rfl⟩ := hj
  obtain ⟨hip, -, x, hx⟩ := ha.page i p hp
  obtain ⟨hjq, -, z, hz⟩ := ha.page j q hq
  have hkle := hc.chunk_le hip hk
  have hmle := hc.chunk_le hjq hm
  rcases lt_trichotomy x z with hlt | rfl | hlt
  · have hpage : (x + 1) * itemSizeMax ≤ z * itemSizeMax := Nat.mul_le_mul_right _ hlt
    rw [Nat.succ_mul] at hpage
    omega
  · -- chunks of one page, so of one class
    obtain rfl : p = q := hx.trans hz.symm
    obtain rfl := ha.apart i j p hp hq
    rcases lt_trichotomy k m with hlt | rfl | hlt
    · have hpiece : (k + 1) * y.size i ≤ m * y.size i := Nat.mul_le_mul_right _ hlt
      rw [Nat.succ_mul] at hpiece
      omega
    · exact .inr (.inr ⟨rfl, rfl⟩)
    · have hpiece : (m + 1) * y.size i ≤ k * y.size i := Nat.mul_le_mul_right _ hlt
      rw [Nat.succ_mul] at hpiece
      omega
  · have hpage : (z + 1) * itemSizeMax ≤ x * itemSizeMax := Nat.mul_le_mul_right _ hlt
    rw [Nat.succ_mul] at hpage
    omega

/-- A page makes at least one chunk, and not very many. -/
theorem Classes.perslab_pos (hc : y.Classes) (hi : y.IsClass i) :
    0 < y.perslab i ∧ y.perslab i ≤ itemSizeMax := by
  rw [hc.perslab i hi]
  exact ⟨Nat.div_pos (hc.size_le i hi) (hc.pos i hi), Nat.div_le_self _ _⟩

theorem IsChunk.isClass (ha : y.Arena) (h : y.IsChunk i a) : y.IsClass i := by
  obtain ⟨p, hp, -⟩ := h
  exact (ha.page i p hp).1

/-- A chunk is of one class. -/
theorem IsChunk.unique (hc : y.Classes) (ha : y.Arena) (hi : y.IsChunk i a)
    (hj : y.IsChunk j a) : i = j := by
  have hposi := hc.pos i (hi.isClass ha)
  have hposj := hc.pos j (hj.isClass ha)
  rcases hi.apart hc ha hj with h | h | h
  · omega
  · omega
  · exact h.1

/-- A chunk lies in what is used of the arena. -/
theorem IsChunk.mem_arena (hc : y.Classes) (ha : y.Arena) (h : y.IsChunk i a) :
    y.memBase ≤ a ∧ a + y.size i ≤ y.memCurrent := by
  obtain ⟨p, hp, k, hk, rfl⟩ := h
  obtain ⟨hi, hle, x, hx⟩ := ha.page i p hp
  have := hc.chunk_le hi hk
  omega

/-- In a class for whole lines every chunk is a page. -/
theorem IsChunk.line (hc : y.Classes) (ha : y.Arena) (h : y.IsChunk i a)
    (hsize : y.size i = itemSizeMax) : ∃ k, a = y.memBase + k * itemSizeMax := by
  obtain ⟨p, hp, k, hk, rfl⟩ := h
  obtain ⟨hi, -, x, hx⟩ := ha.page i p hp
  have hle := hc.chunk_le hi hk
  rw [hsize] at hle ⊢
  have hk0 : k * itemSizeMax = 0 := by omega
  exact ⟨x, by omega⟩

/-! ## A new page -/

/-- There is memory for a page. -/
def HasPage (y : Layout) : Prop :=
  y.memBase ≠ 0 ∧ itemSizeMax ≤ y.memAvail ∧ (y.memMalloced + itemSizeMax) % 2 ^ 64 ≤ y.memLimit

/-- What a page more for a class makes of a layout. -/
def addPage (y : Layout) (id : ℕ) : Layout :=
  { y with
    slabList := Function.update y.slabList id (y.slabList id ++ [y.memCurrent])
    memMalloced := (y.memMalloced + itemSizeMax) % 2 ^ 64
    memCurrent := y.memCurrent + itemSizeMax
    memAvail := y.memAvail - itemSizeMax }

theorem mem_addPage {id p : ℕ} : p ∈ (y.addPage id).slabList i ↔
    p ∈ y.slabList i ∨ i = id ∧ p = y.memCurrent := by
  rcases eq_or_ne i id with rfl | hi
  · simp only [addPage, Function.update_self, List.mem_append, List.mem_singleton, true_and]
  · simp only [addPage, Function.update_of_ne hi, hi, false_and, or_false]

theorem isChunk_addPage {id : ℕ} : (y.addPage id).IsChunk i a ↔
    y.IsChunk i a ∨ i = id ∧ ∃ k < y.perslab id, a = y.memCurrent + k * y.size id := by
  constructor
  · rintro ⟨p, hp, hk⟩
    rcases mem_addPage.mp hp with hp | ⟨rfl, rfl⟩
    · exact .inl ⟨p, hp, hk⟩
    · exact .inr ⟨rfl, hk⟩
  · rintro (⟨p, hp, hk⟩ | ⟨rfl, hk⟩)
    · exact ⟨p, mem_addPage.mpr (.inl hp), hk⟩
    · exact ⟨_, mem_addPage.mpr (.inr ⟨rfl, rfl⟩), hk⟩

theorem Classes.addPage (hc : y.Classes) (id : ℕ) : (y.addPage id).Classes :=
  ⟨hc.last, hc.le, hc.pos, hc.size_le, hc.perslab, hc.size_last⟩

theorem Arena.addPage (ha : y.Arena) {id : ℕ} (hid : y.IsClass id)
    (havail : itemSizeMax ≤ y.memAvail) : (y.addPage id).Arena where
  room := by
    have := ha.room
    simp only [Layout.addPage]
    omega
  used := by
    obtain ⟨n, hn⟩ := ha.used
    refine ⟨n + 1, ?_⟩
    simp only [Layout.addPage, hn, Nat.succ_mul, Nat.add_assoc]
  page i p hp := by
    rcases mem_addPage.mp hp with hp | ⟨rfl, rfl⟩
    · obtain ⟨hi, hle, hk⟩ := ha.page i p hp
      exact ⟨hi, hle.trans (Nat.le_add_right _ _), hk⟩
    · exact ⟨hid, le_rfl, ha.used⟩
  apart i j p hi hj := by
    -- a page that is new begins where all others have ended
    have hnew : ∀ k, y.memCurrent ∉ y.slabList k := by
      intro k hk
      have hle := (ha.page k _ hk).2.1
      simp only [itemSizeMax, lineSize] at hle
      omega
    rcases mem_addPage.mp hi with hi' | ⟨rfl, hp⟩
    · rcases mem_addPage.mp hj with hj' | ⟨-, rfl⟩
      · exact ha.apart i j p hi' hj'
      · exact absurd hi' (hnew i)
    · rcases mem_addPage.mp hj with hj' | ⟨rfl, -⟩
      · exact absurd (hp ▸ hj') (hnew j)
      · rfl

/-- The chunks of the page that comes next are not chunks yet. -/
theorem not_isChunk_next (hc : y.Classes) (ha : y.Arena) (k : ℕ) :
    ¬ y.IsChunk i (y.memCurrent + k) := by
  intro h
  have hpos := hc.pos i (h.isClass ha)
  have hle := (h.mem_arena hc ha).2
  omega

/-- Only pages are added. -/
structure Grows (y y' : Layout) : Prop where
  size : y'.size = y.size
  powerLargest : y'.powerLargest = y.powerLargest
  memBase : y'.memBase = y.memBase
  memLimit : y'.memLimit = y.memLimit
  chunk : ∀ i a, y.IsChunk i a → y'.IsChunk i a

theorem Grows.refl (y : Layout) : y.Grows y := ⟨rfl, rfl, rfl, rfl, fun _ _ h => h⟩

theorem Grows.trans {y'' : Layout} (h : y.Grows y') (h' : y'.Grows y'') : y.Grows y'' where
  size := h'.size.trans h.size
  powerLargest := h'.powerLargest.trans h.powerLargest
  memBase := h'.memBase.trans h.memBase
  memLimit := h'.memLimit.trans h.memLimit
  chunk i a hi := h'.chunk i a (h.chunk i a hi)

theorem Grows.addPage (y : Layout) (id : ℕ) : y.Grows (y.addPage id) :=
  ⟨rfl, rfl, rfl, rfl, fun _ _ h => isChunk_addPage.mpr (.inl h)⟩

end Layout

end Slab

end Ting
