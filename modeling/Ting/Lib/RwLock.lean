/-
# `Ting.Lib.RwLock` — the counter of a readers–writer lock

A readers–writer lock kept in one counter: zero when it is free, one while a writer is inside,
twice the number of readers otherwise.  `Held v r w` says that the counter `v` accounts for `r`
readers and `w` writers, and perhaps for others that will never leave; `Counts v r w` that there
are no others.  What the four operations do to it needs no more than arithmetic, so either
invariant on a lock follows from counting who is inside.
-/
import Mathlib.Data.Nat.Notation

namespace RwLock

/-- The counter `v` accounts for `r` readers and `w` writers. -/
def Held (v r w : ℕ) : Prop :=
  w = 0 ∧ (∃ lost, v = 2 * (r + lost)) ∨ w ≤ 1 ∧ r = 0 ∧ v = 1

variable {v r w : ℕ}

theorem held_zero : Held 0 0 0 :=
  .inl ⟨rfl, 0, rfl⟩

/-- A reader enters when no writer is inside. -/
theorem Held.rLock (h : Held v r w) (hv : v ≠ 1) : Held (v + 2) (r + 1) w := by
  rcases h with ⟨hw, lost, rfl⟩ | ⟨_, _, rfl⟩
  · exact .inl ⟨hw, lost, by omega⟩
  · exact absurd rfl hv

/-- A reader leaves. -/
theorem Held.rUnlock (h : Held v (r + 1) w) : Held (v - 2) r w := by
  rcases h with ⟨hw, lost, rfl⟩ | ⟨_, hr, _⟩
  · exact .inl ⟨hw, lost, by omega⟩
  · omega

/-- A writer enters when the counter is zero: nobody is inside. -/
theorem Held.wLock (h : Held 0 r w) : r = 0 ∧ w = 0 ∧ Held 1 r (w + 1) := by
  rcases h with ⟨rfl, lost, hv⟩ | ⟨_, _, hv⟩
  · have hr : r = 0 := by omega
    subst hr
    exact ⟨rfl, rfl, .inr ⟨Nat.le_refl 1, rfl, rfl⟩⟩
  · omega

/-- A writer leaves. -/
theorem Held.wUnlock (h : Held v r (w + 1)) : Held 0 r w := by
  rcases h with ⟨hw, _⟩ | ⟨hw, rfl, _⟩
  · omega
  · exact .inl ⟨by omega, 0, rfl⟩

/-- Some of those inside are forgotten. -/
theorem Held.mono {r' w' : ℕ} (h : Held v r w) (hr : r' ≤ r) (hw : w' ≤ w) : Held v r' w' := by
  rcases h with ⟨rfl, lost, rfl⟩ | ⟨hw', rfl, rfl⟩
  · exact .inl ⟨by omega, lost + (r - r'), by omega⟩
  · exact .inr ⟨by omega, by omega, rfl⟩

/-- A writer is alone. -/
theorem Held.alone (h : Held v r w) (hw : 0 < w) : w = 1 ∧ r = 0 ∧ v = 1 := by
  rcases h with ⟨rfl, _⟩ | ⟨hw', hr, hv⟩
  · omega
  · exact ⟨by omega, hr, hv⟩

/-- Readers keep writers out, and the counter is neither free nor a writer's. -/
theorem Held.shared (h : Held v r w) (hr : 0 < r) : w = 0 ∧ v ≠ 0 ∧ v ≠ 1 := by
  rcases h with ⟨hw, lost, rfl⟩ | ⟨_, rfl, _⟩
  · exact ⟨hw, by omega, by omega⟩
  · omega

/-! ## Nobody else -/

/-- The counter of a lock with `r` readers and `w` writers. -/
def Counts (v r w : ℕ) : Prop :=
  w = 0 ∧ v = 2 * r ∨ w = 1 ∧ r = 0 ∧ v = 1

theorem counts_zero : Counts 0 0 0 :=
  .inl ⟨rfl, rfl⟩

theorem held_iff_counts : Held v r w ↔ ∃ r' w', r ≤ r' ∧ w ≤ w' ∧ Counts v r' w' := by
  constructor
  · rintro (⟨rfl, lost, rfl⟩ | ⟨hw, rfl, rfl⟩)
    · exact ⟨r + lost, 0, Nat.le_add_right r lost, Nat.le_refl 0, .inl ⟨rfl, rfl⟩⟩
    · exact ⟨0, 1, Nat.le_refl 0, hw, .inr ⟨rfl, rfl, rfl⟩⟩
  · rintro ⟨r', w', hr, hw, ⟨rfl, rfl⟩ | ⟨rfl, rfl, rfl⟩⟩
    · exact .inl ⟨by omega, r' - r, by omega⟩
    · exact .inr ⟨hw, by omega, rfl⟩

theorem Counts.rLock (h : Counts v r w) (hv : v ≠ 1) : Counts (v + 2) (r + 1) w := by
  rcases h with ⟨hw, rfl⟩ | ⟨_, _, rfl⟩
  · exact .inl ⟨hw, by omega⟩
  · exact absurd rfl hv

theorem Counts.rUnlock (h : Counts v (r + 1) w) : 2 ≤ v ∧ Counts (v - 2) r w := by
  rcases h with ⟨hw, rfl⟩ | ⟨_, hr, _⟩
  · exact ⟨by omega, .inl ⟨hw, by omega⟩⟩
  · omega

theorem Counts.wLock (h : Counts 0 r w) : Counts 1 r (w + 1) := by
  rcases h with ⟨rfl, hv⟩ | ⟨_, _, hv⟩
  · exact .inr ⟨rfl, by omega, rfl⟩
  · cases hv

theorem Counts.wUnlock (h : Counts v r (w + 1)) : Counts 0 r w := by
  rcases h with ⟨hw, _⟩ | ⟨hw, rfl, _⟩
  · cases hw
  · exact .inl ⟨by omega, rfl⟩

/-- A writer is the only one inside, and the counter says whether there is one. -/
theorem Counts.excludes (h : Counts v r w) :
    w ≤ 1 ∧ (0 < w → r = 0) ∧ v = if 0 < w then 1 else 2 * r := by
  rcases h with ⟨rfl, rfl⟩ | ⟨rfl, rfl, rfl⟩
  · exact ⟨by omega, fun h => absurd h (Nat.lt_irrefl 0), rfl⟩
  · exact ⟨Nat.le_refl 1, fun _ => rfl, rfl⟩

end RwLock
