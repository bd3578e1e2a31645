/-
# `Ting.Lib.Rounding` — rounding to a number of binary digits

`nearestEven` is the integer next to a number, the even one of two; `roundTo p` keeps `p` binary
digits of a positive number.  Both are monotone enough for what is usually asked: a bound by an
integer of at most `p` digits stays a bound.
-/
import Mathlib.Data.Int.Log
import Mathlib.Data.Rat.Floor
import Mathlib.Tactic.Linarith
import Mathlib.Tactic.Positivity
import Mathlib.Tactic.FieldSimp

namespace Rounding

/-- The nearest integer; of two, the even one. -/
def nearestEven (x : ℚ) : ℤ :=
  if x - ⌊x⌋ < 1 / 2 ∨ x - ⌊x⌋ = 1 / 2 ∧ ⌊x⌋ % 2 = 0 then ⌊x⌋ else ⌊x⌋ + 1

/-- A positive number rounded to `p` binary digits. -/
def roundTo (p : ℕ) (x : ℚ) : ℚ :=
  nearestEven (x / 2 ^ (Int.log 2 x - (p - 1 : ℤ))) * 2 ^ (Int.log 2 x - (p - 1 : ℤ))

variable {x : ℚ} {z : ℤ} {n p : ℕ}

theorem le_nearestEven (h : z ≤ x) : z ≤ nearestEven x := by
  have hfloor : z ≤ ⌊x⌋ := Int.le_floor.mpr h
  unfold nearestEven
  split
  · exact hfloor
  · exact hfloor.trans (Int.le_add_one le_rfl)

theorem nearestEven_le (h : x ≤ z) : nearestEven x ≤ z := by
  unfold nearestEven
  split
  · exact Int.floor_le_iff.mpr (h.trans_lt (by linarith))
  next hno =>
    -- a number that is rounded up is not an integer
    have hlt : (⌊x⌋ : ℚ) < x := by
      refine lt_of_le_of_ne (Int.floor_le x) fun heq => hno (.inl ?_)
      rw [heq, sub_self]
      norm_num
    exact_mod_cast Int.add_one_le_iff.mpr (by exact_mod_cast hlt.trans_le h)

/-- Below `2 ^ p` the integers are whole multiples of the last digit that is kept. -/
theorem exists_eq_mul_ulp (n : ℕ) {e : ℤ} (he : e ≤ p - 1) :
    ∃ z : ℤ, (n : ℚ) = z * 2 ^ (e - (p - 1 : ℤ)) := by
  obtain ⟨k, hk⟩ := Int.eq_ofNat_of_zero_le (sub_nonneg.mpr he)
  refine ⟨n * 2 ^ k, ?_⟩
  have hexp : e - (p - 1 : ℤ) = -(k : ℤ) := by omega
  rw [hexp, zpow_neg, zpow_natCast]
  push_cast
  field_simp

theorem roundTo_le (hx : 0 < x) (hn : n < 2 ^ p) (h : x ≤ n) : roundTo p x ≤ n := by
  have hlog : Int.log 2 x ≤ p - 1 := by
    refine Int.le_sub_one_of_lt ((Int.lt_zpow_iff_log_lt (by norm_num) hx).mp ?_)
    rw [zpow_natCast]
    exact h.trans_lt (by exact_mod_cast hn)
  obtain ⟨z, hz⟩ := exists_eq_mul_ulp n hlog
  have hulp : (0 : ℚ) < 2 ^ (Int.log 2 x - (p - 1 : ℤ)) := zpow_pos (by norm_num) _
  have hle : nearestEven (x / 2 ^ (Int.log 2 x - (p - 1 : ℤ))) ≤ z :=
    nearestEven_le ((div_le_iff₀ hulp).mpr (h.trans_eq hz))
  rw [hz]
  exact mul_le_mul_of_nonneg_right (by exact_mod_cast hle) hulp.le

theorem le_roundTo (hp : 0 < p) (hx : 0 < x) (hn : n < 2 ^ p) (h : n ≤ x) : n ≤ roundTo p x := by
  have hulp : (0 : ℚ) < 2 ^ (Int.log 2 x - (p - 1 : ℤ)) := zpow_pos (by norm_num) _
  rcases le_or_gt (Int.log 2 x) (p - 1) with hlog | hlog
  · obtain ⟨z, hz⟩ := exists_eq_mul_ulp n hlog
    have hle : z ≤ nearestEven (x / 2 ^ (Int.log 2 x - (p - 1 : ℤ))) :=
      le_nearestEven ((le_div_iff₀ hulp).mpr (hz.symm.trans_le h))
    rw [hz]
    exact mul_le_mul_of_nonneg_right (by exact_mod_cast hle) hulp.le
  · -- the number is beyond `2 ^ p`, and so is what it is rounded to
    have hdigit : (2 : ℚ) ^ (p - 1) * 2 ^ (Int.log 2 x - (p - 1 : ℤ)) = 2 ^ Int.log 2 x := by
      rw [← zpow_natCast, ← zpow_add₀ (by norm_num)]
      congr 1
      omega
    have hle : (2 ^ (p - 1) : ℤ) ≤ nearestEven (x / 2 ^ (Int.log 2 x - (p - 1 : ℤ))) := by
      refine le_nearestEven ((le_div_iff₀ hulp).mpr ?_)
      push_cast
      rw [hdigit]
      exact Int.zpow_log_le_self (by norm_num) hx
    have hpow : (2 : ℚ) ^ p ≤ 2 ^ Int.log 2 x := by
      rw [← zpow_natCast]
      exact zpow_le_zpow_right₀ (by norm_num) (by omega)
    calc (n : ℚ) ≤ 2 ^ p := by exact_mod_cast hn.le
      _ ≤ 2 ^ Int.log 2 x := hpow
      _ = 2 ^ (p - 1) * 2 ^ (Int.log 2 x - (p - 1 : ℤ)) := hdigit.symm
      _ ≤ roundTo p x := mul_le_mul_of_nonneg_right (by exact_mod_cast hle) hulp.le

end Rounding
