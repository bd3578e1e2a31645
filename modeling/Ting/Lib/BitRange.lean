/-
# `Ting.Lib.BitRange` — bit ranges and bytes of a word

Reading and writing the bits `hi` to `lo` of a word, as hardware languages do it: what is
written is cut off or padded with zeros to the width of the range, and so is what is read to
the width of its target.  A range that is read is the one written last, as long as what is
written in between lies elsewhere.  The bytes of a word are its ranges of eight, the lowest
first.
-/
import Mathlib.Data.Nat.Notation
import Mathlib.Data.List.Range

namespace BitRange

variable {n m k : ℕ}

/-- The bits `hi` to `lo` of `w`, as a word of width `m`. -/
def slice (w : BitVec n) (hi lo : ℕ) : BitVec m :=
  (w.extractLsb' lo (hi + 1 - lo)).setWidth m

/-- `w` with its bits `hi` to `lo` replaced by those of `v`. -/
def setSlice (w : BitVec n) (hi lo : ℕ) (v : BitVec m) : BitVec n :=
  w &&& ~~~((BitVec.allOnes (hi + 1 - lo)).setWidth n <<< lo) |||
    (v.setWidth (hi + 1 - lo)).setWidth n <<< lo

section Bits

variable {w : BitVec n} {v : BitVec m} {hi lo hi' lo' i : ℕ}

theorem getLsbD_slice : (slice w hi lo : BitVec m).getLsbD i
    = (decide (i < m) && decide (lo + i ≤ hi) && w.getLsbD (lo + i)) := by
  simp only [slice, BitVec.getLsbD_setWidth, BitVec.getLsbD_extractLsb', Bool.and_assoc]
  congr 2
  exact decide_eq_decide.mpr ⟨fun h => by omega, fun h => by omega⟩

theorem getLsbD_setSlice : (setSlice w hi lo v).getLsbD i
    = if lo ≤ i ∧ i ≤ hi ∧ i < n then v.getLsbD (i - lo) else w.getLsbD i := by
  simp only [setSlice, BitVec.getLsbD_or, BitVec.getLsbD_and, BitVec.getLsbD_not,
    BitVec.getLsbD_shiftLeft, BitVec.getLsbD_setWidth, BitVec.getLsbD_allOnes]
  rcases Nat.lt_or_ge i n with hin | hin
  · split
    next h =>
      simp only [hin, show ¬ i < lo by omega, show i - lo < n by omega,
        show i - lo < hi + 1 - lo by omega, decide_true, decide_false, Bool.not_true,
        Bool.not_false, Bool.true_and, Bool.and_false, Bool.false_or]
    next h =>
      rcases Nat.lt_or_ge i lo with hlo | hlo
      · simp only [hin, hlo, decide_true, Bool.not_true, Bool.and_false, Bool.false_and,
          Bool.not_false, Bool.and_true, Bool.or_false]
      · simp only [hin, show ¬ i - lo < hi + 1 - lo by omega, decide_true, decide_false,
          Bool.and_false, Bool.false_and, Bool.not_false, Bool.and_true, Bool.or_false]
  · rw [if_neg (by omega), BitVec.getLsbD_of_ge w i hin]
    simp only [show ¬ i < n by omega, decide_false, Bool.false_and, Bool.or_false]

/-- What has been written is read. -/
theorem slice_setSlice (hm : hi + 1 = lo + m) (hn : hi < n) : slice (setSlice w hi lo v) hi lo = v := by
  refine BitVec.eq_of_getLsbD_eq fun i him => ?_
  rw [getLsbD_slice, getLsbD_setSlice, if_pos (by omega), Nat.add_sub_cancel_left]
  simp only [him, decide_true, Bool.true_and, show lo + i ≤ hi by omega]

/-- What is written elsewhere is not. -/
theorem slice_setSlice_of_disjoint (h : hi < lo' ∨ hi' < lo) :
    (slice (setSlice w hi lo v) hi' lo' : BitVec k) = slice w hi' lo' := by
  refine BitVec.eq_of_getLsbD_eq fun i _ => ?_
  rw [getLsbD_slice, getLsbD_slice, getLsbD_setSlice]
  split
  next hin =>
    simp only [show ¬ lo' + i ≤ hi' by omega, decide_false, Bool.and_false, Bool.false_and]
  next => rfl

/-- What has been written is read, also where both ranges reach past the value, and past the end of
the word. -/
theorem slice_setSlice_of_le (hhi : lo + m ≤ hi + 1) (hhi' : lo + m ≤ hi' + 1) (hn : lo + m ≤ n) :
    slice (setSlice w hi lo v) hi' lo = v := by
  refine BitVec.eq_of_getLsbD_eq fun i him => ?_
  rw [getLsbD_slice, getLsbD_setSlice, if_pos (by omega), Nat.add_sub_cancel_left]
  simp only [him, decide_true, Bool.true_and, show lo + i ≤ hi' by omega]

/-- Only the bits that fit in the target are read. -/
theorem slice_setSlice_of_above (h : lo' + k ≤ lo) :
    (slice (setSlice w hi lo v) hi' lo' : BitVec k) = slice w hi' lo' := by
  refine BitVec.eq_of_getLsbD_eq fun i hik => ?_
  rw [getLsbD_slice, getLsbD_slice, getLsbD_setSlice, if_neg (by omega)]

end Bits

/-! ## Loops -/

section Loops

variable {ι : Type*} {hi lo : ι → ℕ} {v : ι → BitVec m} {hi' lo' : ℕ}

/-- A loop that writes elsewhere. -/
theorem slice_foldl_of_disjoint : ∀ (l : List ι) (w : BitVec n),
    (∀ i ∈ l, hi i < lo' ∨ hi' < lo i) →
    (slice (l.foldl (fun w i => setSlice w (hi i) (lo i) (v i)) w) hi' lo' : BitVec k) = slice w hi' lo'
  | [], _, _ => rfl
  | i :: l, w, h => by
      rw [List.foldl_cons, slice_foldl_of_disjoint l _ fun j hj => h j (List.mem_cons_of_mem i hj)]
      exact slice_setSlice_of_disjoint (h i List.mem_cons_self)

/-- A loop that writes ranges apart from each other. -/
theorem slice_foldl (hi lo : ι → ℕ) (v : ι → BitVec m) {i : ι} : ∀ (l : List ι) (w : BitVec n), i ∈ l →
    l.Pairwise (fun i j => hi i < lo j ∨ hi j < lo i) → hi i + 1 = lo i + m → hi i < n →
    slice (l.foldl (fun w i => setSlice w (hi i) (lo i) (v i)) w) (hi i) (lo i) = v i
  | [], _, hi', _, _, _ => nomatch hi'
  | j :: l, w, hij, hp, hm, hn => by
      rw [List.foldl_cons]
      obtain ⟨hj, hl⟩ := List.pairwise_cons.mp hp
      rcases Classical.em (i ∈ l) with hmem | hmem
      · exact slice_foldl hi lo v l _ hmem hl hm hn
      · obtain rfl : i = j := (List.mem_cons.mp hij).resolve_right hmem
        rw [slice_foldl_of_disjoint l _ fun j' hj' => (hj j' hj').symm]
        exact slice_setSlice hm hn

/-- A loop that writes above what is read. -/
theorem slice_foldl_of_above : ∀ (l : List ι) (w : BitVec n), (∀ i ∈ l, lo' + k ≤ lo i) →
    (slice (l.foldl (fun w i => setSlice w (hi i) (lo i) (v i)) w) hi' lo' : BitVec k) = slice w hi' lo'
  | [], _, _ => rfl
  | i :: l, w, h => by
      rw [List.foldl_cons, slice_foldl_of_above l _ fun j hj => h j (List.mem_cons_of_mem i hj)]
      exact slice_setSlice_of_above (h i List.mem_cons_self)

/-- A loop whose ranges ascend, each reaching into the next: what it leaves there is written
over. -/
theorem slice_foldl_ascending (hi lo : ι → ℕ) (v : ι → BitVec m) {i : ι} (hhi : lo i + m ≤ hi i + 1)
    (hn : lo i + m ≤ n) : ∀ (l : List ι) (w : BitVec n), i ∈ l →
    l.Pairwise (fun i j => lo i + m ≤ lo j) →
    slice (l.foldl (fun w i => setSlice w (hi i) (lo i) (v i)) w) (hi i) (lo i) = v i
  | [], _, hi', _ => nomatch hi'
  | j :: l, w, hij, hp => by
      rw [List.foldl_cons]
      obtain ⟨hj, hl⟩ := List.pairwise_cons.mp hp
      rcases Classical.em (i ∈ l) with hmem | hmem
      · exact slice_foldl_ascending hi lo v hhi hn l _ hmem hl
      · obtain rfl : i = j := (List.mem_cons.mp hij).resolve_right hmem
        rw [slice_foldl_of_above l _ hj]
        exact slice_setSlice_of_le hhi hhi hn

end Loops

/-! ## Bytes -/

/-- The lowest `k` bytes of a word, the lowest first. -/
def leBytes (k : ℕ) (w : BitVec n) : List (BitVec 8) :=
  (List.range k).map fun i => slice w (8 * i + 7) (8 * i)

/-- The word that the bytes make up. -/
def ofLeBytes : List (BitVec 8) → BitVec n
  | [] => 0
  | b :: bs => ofLeBytes bs <<< 8 ||| b.setWidth n

section Bytes

variable {w w' : BitVec n} {bs : List (BitVec 8)} {off hi lo i : ℕ}

@[simp] theorem length_leBytes : (leBytes k w).length = k := by
  rw [leBytes, List.length_map, List.length_range]

theorem getD_leBytes (h : i < k) : (leBytes k w).getD i 0 = slice w (8 * i + 7) (8 * i) := by
  rw [List.getD_eq_getElem?_getD, leBytes, List.getElem?_map, List.getElem?_range h]
  rfl

/-- Byte `i` of some bytes in a row. -/
theorem getD_take_drop (h : i < k) : ((bs.drop off).take k).getD i 0 = bs.getD (off + i) 0 := by
  rw [List.getD_eq_getElem?_getD, List.getD_eq_getElem?_getD, List.getElem?_take_of_lt h,
    List.getElem?_drop]

theorem getLsbD_ofLeBytes : ∀ (bs : List (BitVec 8)) (i : ℕ), (ofLeBytes bs : BitVec n).getLsbD i
    = (decide (i < n) && (bs.getD (i / 8) 0).getLsbD (i % 8))
  | [], i => by
      simp [ofLeBytes]
  | b :: bs, i => by
      rw [ofLeBytes, BitVec.getLsbD_or, BitVec.getLsbD_shiftLeft, BitVec.getLsbD_setWidth,
        getLsbD_ofLeBytes bs]
      rcases Nat.lt_or_ge i 8 with hi | hi
      · rw [Nat.div_eq_of_lt hi, Nat.mod_eq_of_lt hi]
        simp [hi]
      · rw [BitVec.getLsbD_of_ge b i hi, show i / 8 = (i - 8) / 8 + 1 by omega,
          show i % 8 = (i - 8) % 8 by omega]
        simp only [show ¬ i < 8 by omega, List.getD_cons_succ, decide_false, Bool.not_false,
          Bool.and_true, Bool.and_false, Bool.or_false]
        rcases Nat.lt_or_ge i n with hn | hn
        · simp only [hn, show i - 8 < n by omega, decide_true, Bool.true_and]
        · simp only [show ¬ i < n by omega, decide_false, Bool.false_and]

/-- A word is made up of its bytes. -/
theorem ofLeBytes_leBytes (hn : n ≤ 8 * k) : (ofLeBytes (leBytes k w) : BitVec n) = w := by
  refine BitVec.eq_of_getLsbD_eq fun i hi => ?_
  rw [getLsbD_ofLeBytes, getD_leBytes (by omega), getLsbD_slice]
  simp only [hi, decide_true, Bool.true_and, Nat.mod_lt i (show 0 < 8 by omega),
    Nat.div_add_mod, show i ≤ 8 * (i / 8) + 7 by omega]

/-- The field of `k` bytes at an offset of a packed struct. -/
def field (bs : List (BitVec 8)) (off k : ℕ) : BitVec n :=
  ofLeBytes ((bs.drop off).take k)

/-- It is a range of the word that the bytes make up. -/
theorem slice_ofLeBytes (hlo : lo = 8 * off) (hhi : hi + 1 = lo + m) (hm : m = 8 * k) (hn : hi < n) :
    (slice (ofLeBytes bs : BitVec n) hi lo : BitVec m) = field bs off k := by
  refine BitVec.eq_of_getLsbD_eq fun i him => ?_
  rw [field, getLsbD_slice, getLsbD_ofLeBytes, getLsbD_ofLeBytes, getD_take_drop (by omega),
    show (lo + i) / 8 = off + i / 8 by omega, show (lo + i) % 8 = i % 8 by omega]
  simp only [him, decide_true, Bool.true_and, show lo + i ≤ hi by omega,
    show lo + i < n by omega]

theorem field_skip {pre : List (BitVec 8)} (h : pre.length ≤ off) :
    (field (pre ++ bs) off k : BitVec n) = field bs (off - pre.length) k := by
  rw [field, List.drop_append, List.drop_of_length_le h, List.nil_append, field]

theorem field_here (hn : n ≤ 8 * k) : (field (leBytes k w ++ bs) 0 k : BitVec n) = w := by
  rw [field, List.drop_zero, List.take_left' length_leBytes, ofLeBytes_leBytes hn]

theorem field_last (hn : n ≤ 8 * k) : (field (leBytes k w) 0 k : BitVec n) = w := by
  rw [← List.append_nil (leBytes k w), field_here hn]

/-- An element of an array of bytes. -/
theorem field_ofFn {a : Fin k → BitVec 8} (i : Fin k) :
    (field (List.ofFn a ++ bs) i 1 : BitVec 8) = a i := by
  have hi : (i : ℕ) < (List.ofFn a).length := by
    rw [List.length_ofFn]
    exact i.isLt
  have htake : ((List.ofFn a ++ bs).drop i).take 1 = [a i] := by
    rw [List.drop_append_of_le_length hi.le, List.drop_eq_getElem_cons hi, List.getElem_ofFn]
    rfl
  rw [field, htake, ofLeBytes, ofLeBytes]
  simp

/-- Words with the same bytes are the same. -/
theorem eq_of_bytes (hn : n = 8 * k)
    (h : ∀ i < k, (slice w (8 * i + 7) (8 * i) : BitVec 8) = slice w' (8 * i + 7) (8 * i)) :
    w = w' := by
  have hbytes : leBytes k w = leBytes k w' :=
    List.map_congr_left fun i hi => h i (List.mem_range.mp hi)
  rw [← ofLeBytes_leBytes (w := w) hn.le, hbytes, ofLeBytes_leBytes hn.le]

end Bytes

end BitRange
