/-
# `Ting.Lib.Total` — conservation laws over lists and finite families

An accounting argument gives every message in flight and every cell of a finite family a
weight and shows that each step moves weight from one place to another.  This module has
the bookkeeping: the total weight of a list, what removing one element or appending some
does to it, and what updating one cell does to a finite sum.
-/
import Mathlib.Algebra.BigOperators.Group.List.Basic
import Mathlib.Algebra.BigOperators.Group.Finset.Piecewise
import Mathlib.Algebra.Order.BigOperators.Group.Finset
import Mathlib.Data.Fintype.BigOperators
import Mathlib.Data.List.Perm.Basic
import Mathlib.Tactic.Abel

universe u v

namespace Total

variable {α : Type u} {M : Type v}

section Lists

variable [AddCommMonoid M]

/-- The weight of a list is the sum of its elements' weights. -/
def total (f : α → M) (l : List α) : M :=
  (l.map f).sum

@[simp] theorem total_nil (f : α → M) : total f [] = 0 := rfl

@[simp] theorem total_cons (f : α → M) (a : α) (l : List α) :
    total f (a :: l) = f a + total f l := by
  simp [total]

@[simp] theorem total_append (f : α → M) (l k : List α) :
    total f (l ++ k) = total f l + total f k := by
  simp [total]

@[simp] theorem total_map {β : Type u} (f : α → M) (g : β → α) (l : List β) :
    total f (l.map g) = total (fun b => f (g b)) l := by
  simp only [total, List.map_map]
  rfl

/-- The weights of two kinds add up. -/
theorem total_add (f g : α → M) (l : List α) :
    total (fun a => f a + g a) l = total f l + total g l := by
  induction l with
  | nil => simp
  | cons a l ih =>
      rw [total_cons, total_cons, total_cons, ih]
      abel

/-- Taking one element out takes its weight out. -/
theorem total_eraseIdx (f : α → M) {l : List α} {i : ℕ} {a : α} (h : l[i]? = some a) :
    f a + total f (l.eraseIdx i) = total f l := by
  obtain ⟨hi, rfl⟩ := List.getElem?_eq_some_iff.mp h
  have hp := List.getElem_cons_eraseIdx_perm hi
  have := (hp.map f).sum_eq
  simpa [total] using this

/-- Pointwise equal weights give equal totals. -/
theorem total_congr {f g : α → M} {l : List α} (h : ∀ a ∈ l, f a = g a) :
    total f l = total g l := by
  unfold total
  rw [List.map_congr_left h]

/-- If no element weighs anything, neither does the list. -/
theorem total_eq_zero {f : α → M} {l : List α} (h : ∀ a ∈ l, f a = 0) : total f l = 0 := by
  rw [total_congr h]
  simp [total]

end Lists

/-- Larger weights give a larger total. -/
theorem total_mono {f g : α → ℕ} (h : ∀ a, f a ≤ g a) (l : List α) : total f l ≤ total g l := by
  induction l with
  | nil => exact Nat.le_refl _
  | cons a l ih =>
      rw [total_cons, total_cons]
      exact Nat.add_le_add (h a) ih

/-- It is enough to compare the weights that are not zero, of the elements of the list. -/
theorem total_le_of_pos {f g : α → ℕ} {l : List α} (h : ∀ a ∈ l, 0 < f a → f a ≤ g a) :
    total f l ≤ total g l := by
  induction l with
  | nil => exact Nat.le_refl _
  | cons a l ih =>
      rw [total_cons, total_cons]
      refine Nat.add_le_add ?_ (ih fun b hb => h b (List.mem_cons_of_mem _ hb))
      rcases Nat.eq_zero_or_pos (f a) with hz | hp
      · rw [hz]
        exact Nat.zero_le _
      · exact h a List.mem_cons_self hp

/-- An element weighs at most the list it is in. -/
theorem le_total {f : α → ℕ} {l : List α} {a : α} (ha : a ∈ l) : f a ≤ total f l := by
  induction l with
  | nil => cases ha
  | cons b l ih =>
      rw [total_cons]
      rcases List.mem_cons.mp ha with rfl | ha
      · exact Nat.le_add_right _ _
      · exact le_trans (ih ha) (Nat.le_add_left _ _)

/-- A list whose weight is zero has only weightless elements. -/
theorem eq_zero_of_total {f : α → ℕ} {l : List α} (h : total f l = 0) {a : α} (ha : a ∈ l) :
    f a = 0 :=
  Nat.le_zero.mp (h ▸ le_total ha)

/-- A list with positive weight has an element with positive weight. -/
theorem exists_of_total_pos {f : α → ℕ} {l : List α} (h : 0 < total f l) :
    ∃ a ∈ l, 0 < f a := by
  by_contra hn
  have h0 : total f l = 0 := total_eq_zero fun a ha =>
    Nat.le_zero.mp (not_lt.mp fun hlt => hn ⟨a, ha, hlt⟩)
  omega

/-- The indicator of a proposition. -/
def ind (P : Prop) [Decidable P] : ℕ :=
  if P then 1 else 0

@[simp] theorem ind_true : ind True = 1 := rfl

@[simp] theorem ind_false : ind False = 0 := rfl

theorem ind_of {P : Prop} [Decidable P] (h : P) : ind P = 1 := if_pos h

theorem ind_of_not {P : Prop} [Decidable P] (h : ¬ P) : ind P = 0 := if_neg h

theorem ind_congr {P Q : Prop} [Decidable P] [Decidable Q] (h : P ↔ Q) : ind P = ind Q := by
  by_cases hp : P
  · rw [ind_of hp, ind_of (h.mp hp)]
  · rw [ind_of_not hp, ind_of_not (mt h.mpr hp)]

theorem ind_mono {P Q : Prop} [Decidable P] [Decidable Q] (h : P → Q) : ind P ≤ ind Q := by
  unfold ind
  split
  next hp => rw [if_pos (h hp)]
  next => exact Nat.zero_le _

theorem ind_le_one (P : Prop) [Decidable P] : ind P ≤ 1 := by
  unfold ind
  split <;> omega

/-- A member weighs at most the sum. -/
theorem le_sum {ι : Type u} [Fintype ι] (f : ι → ℕ) (i : ι) : f i ≤ ∑ j, f j :=
  Finset.single_le_sum (s := Finset.univ) (fun _ _ => Nat.zero_le _) (Finset.mem_univ i)

/-- So do two. -/
theorem pair_le_sum {ι : Type u} [Fintype ι] (f : ι → ℕ) {i j : ι} (hne : i ≠ j) :
    f i + f j ≤ ∑ k, f k :=
  Finset.add_le_sum (s := Finset.univ) (fun _ _ => Nat.zero_le _) (Finset.mem_univ i)
    (Finset.mem_univ j) hne

/-- Updating one cell of a family exchanges its weight in the sum. -/
theorem sum_update {ι : Type u} {N : Type v} [Fintype ι] [DecidableEq ι] [AddCommMonoid N]
    {β : ι → Type*} (f : ∀ i, β i → N) (g : ∀ i, β i) (i : ι) (b : β i) :
    ∑ j, f j (Function.update g i b j) + f i (g i) = ∑ j, f j (g j) + f i b := by
  have hl := Finset.add_sum_erase Finset.univ (fun j => f j (Function.update g i b j))
    (Finset.mem_univ i)
  have hr := Finset.add_sum_erase Finset.univ (fun j => f j (g j)) (Finset.mem_univ i)
  have hrest : ∑ j ∈ Finset.univ.erase i, f j (Function.update g i b j)
      = ∑ j ∈ Finset.univ.erase i, f j (g j) := by
    refine Finset.sum_congr rfl fun j hj => ?_
    rw [Function.update_of_ne (Finset.ne_of_mem_erase hj)]
  simp only [Function.update_self, hrest] at hl
  rw [← hl, ← hr]
  abel

end Total
