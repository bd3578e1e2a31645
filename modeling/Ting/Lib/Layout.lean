/-
# `Ting.Lib.Layout` — values as bytes

A layout says which bytes a value of a type has in memory and which value some bytes are.  Layouts
are put together as a compiler puts structs and arrays together: one behind the other, with unused
bytes in between where the alignment asks for them.
-/
import Ting.Lib.BitRange
import Mathlib.Order.Basic

open BitRange

/-- A type whose values take `size` bytes each. -/
structure Layout (α : Type) where
  size : ℕ
  put : α → ℕ → BitVec 8
  get : (ℕ → BitVec 8) → α
  get_congr : ∀ {b b' : ℕ → BitVec 8}, (∀ i < size, b i = b' i) → get b = get b'
  get_put : ∀ a, get (put a) = a

namespace Layout

variable {α β : Type}

/-- A word of `k` bytes, the lowest first. -/
def word (k : ℕ) : Layout (BitVec (8 * k)) where
  size := k
  put w i := slice w (8 * i + 7) (8 * i)
  get b := ofLeBytes ((List.range k).map b)
  get_congr h := congrArg ofLeBytes (List.map_congr_left fun i hi => h i (List.mem_range.mp hi))
  get_put _ := ofLeBytes_leBytes le_rfl

/-- Bytes that are not used. -/
def pad (k : ℕ) : Layout Unit where
  size := k
  put _ _ := 0
  get _ := ()
  get_congr _ := rfl
  get_put _ := rfl

/-- Bytes as they are. -/
def bytes (n : ℕ) : Layout (Fin n → BitVec 8) where
  size := n
  put x i := if h : i < n then x ⟨i, h⟩ else 0
  get b i := b i
  get_congr h := funext fun i => h i i.isLt
  get_put _ := funext fun i => dif_pos i.isLt

/-- One value behind another. -/
def seq (l : Layout α) (k : Layout β) : Layout (α × β) where
  size := l.size + k.size
  put x i := if i < l.size then l.put x.1 i else k.put x.2 (i - l.size)
  get b := (l.get b, k.get fun i => b (l.size + i))
  get_congr h := Prod.ext (l.get_congr fun i hi => h i (Nat.lt_add_right _ hi))
    (k.get_congr fun i hi => h (l.size + i) (Nat.add_lt_add_left hi _))
  get_put x := by
    refine Prod.ext ?_ ?_
    · exact (l.get_congr fun i hi => if_pos hi).trans (l.get_put x.1)
    · refine (k.get_congr fun i _ => ?_).trans (k.get_put x.2)
      simp only [Nat.not_lt.mpr (Nat.le_add_right l.size i), if_false, Nat.add_sub_cancel_left]

/-- An array. -/
def array (n : ℕ) (l : Layout α) : Layout (Fin n → α) where
  size := n * l.size
  put x i := if h : i / l.size < n then l.put (x ⟨i / l.size, h⟩) (i % l.size) else 0
  get b := fun j => l.get fun i => b (j * l.size + i)
  get_congr {b b'} h := funext fun j => l.get_congr fun i hi => h _ <|
    calc j * l.size + i < j * l.size + l.size := Nat.add_lt_add_left hi _
      _ = (j + 1) * l.size := (Nat.succ_mul _ _).symm
      _ ≤ n * l.size := Nat.mul_le_mul_right _ j.isLt
  get_put x := by
    funext j
    refine (l.get_congr fun i hi => ?_).trans (l.get_put (x j))
    have hdiv : (j * l.size + i) / l.size = j := by
      rw [Nat.mul_comm, Nat.mul_add_div (Nat.zero_lt_of_lt hi), Nat.div_eq_of_lt hi, Nat.add_zero]
    have hmod : (j * l.size + i) % l.size = i := by
      rw [Nat.mul_comm, Nat.mul_add_mod, Nat.mod_eq_of_lt hi]
    simp only [hdiv, hmod, j.isLt, dif_pos]

/-- The same bytes, read as values of another type. -/
def map (l : Layout α) (f : α → β) (g : β → α) (h : ∀ y, f (g y) = y) : Layout β where
  size := l.size
  put y := l.put (g y)
  get b := f (l.get b)
  get_congr hb := congrArg f (l.get_congr hb)
  get_put y := (congrArg f (l.get_put (g y))).trans (h y)

@[simp] theorem size_word (k : ℕ) : (word k).size = k := rfl

@[simp] theorem size_pad (k : ℕ) : (pad k).size = k := rfl

@[simp] theorem size_seq (l : Layout α) (k : Layout β) : (l.seq k).size = l.size + k.size := rfl

@[simp] theorem size_array (n : ℕ) (l : Layout α) : (array n l).size = n * l.size := rfl

@[simp] theorem size_map (l : Layout α) (f : α → β) (g : β → α) (h : ∀ y, f (g y) = y) :
    (l.map f g h).size = l.size := rfl

end Layout
