/-
# `Ting.Lib.Rounds` — machines that come to rest

Several machines tick in any order.  Every action leaves the state as it is or takes it nearer to
rest, and whether it does depends on the kind of the action alone.  Then it does not matter in
which order the machines tick, as long as each has its turn: enough rounds, in each of which every
kind of action occurs, end in a state that no action changes.
-/
import Mathlib.Logic.Basic
import Mathlib.Data.Nat.Notation

universe u v w

namespace Rounds

variable {σ : Type u} {α : Type v} {κ : Type w}

/-- No action changes `s`. -/
def AtRest (step : σ → α → σ) (s : σ) : Prop :=
  ∀ a, step s a = s

/-- Every kind of action occurs. -/
def IsRound (kind : α → κ) (r : List α) : Prop :=
  ∀ k, ∃ a ∈ r, kind a = k

variable {step : σ → α → σ}

theorem AtRest.foldl {s : σ} (h : AtRest step s) (r : List α) : r.foldl step s = s := by
  induction r with
  | nil => rfl
  | cons a r ih => rw [List.foldl_cons, h a, ih]

section Work

variable {work : σ → ℕ} {kind : α → κ}
  (hstep : ∀ s k, (∀ a, kind a = k → step s a = s) ∨ ∀ a, kind a = k → work (step s a) < work s)

include hstep

theorem step_eq_or_lt (s : σ) (a : α) : step s a = s ∨ work (step s a) < work s :=
  (hstep s (kind a)).imp (fun h => h a rfl) (fun h => h a rfl)

theorem work_foldl_le (s : σ) (r : List α) : work (r.foldl step s) ≤ work s := by
  induction r generalizing s with
  | nil => exact Nat.le_refl _
  | cons a r ih =>
    rcases step_eq_or_lt hstep s a with hsame | hlt
    · rw [List.foldl_cons, hsame]
      exact ih s
    · exact Nat.le_trans (ih (step s a)) (Nat.le_of_lt hlt)

/-- Until the first action that does something, the state stays the same. -/
theorem work_foldl_lt {s : σ} {r : List α} (h : ∃ a ∈ r, step s a ≠ s) :
    work (r.foldl step s) < work s := by
  induction r with
  | nil =>
    obtain ⟨a, ha, -⟩ := h
    cases ha
  | cons b r ih =>
    rw [List.foldl_cons]
    rcases step_eq_or_lt hstep s b with hsame | hlt
    · rw [hsame]
      obtain ⟨a, ha, hne⟩ := h
      rcases List.mem_cons.mp ha with rfl | ha
      · exact absurd hsame hne
      · exact ih ⟨a, ha, hne⟩
    · exact Nat.lt_of_le_of_lt (work_foldl_le hstep _ r) hlt

/-- A round that begins in a state that some action changes does some work. -/
theorem work_round_lt {s : σ} {r : List α} (hr : IsRound kind r) (h : ¬AtRest step s) :
    work (r.foldl step s) < work s := by
  obtain ⟨a, hne⟩ := not_forall.mp h
  obtain ⟨a', ha', hk⟩ := hr (kind a)
  refine work_foldl_lt hstep ⟨a', ha', fun hsame => ?_⟩
  rcases hstep s (kind a) with hidle | hlt
  · exact hne (hidle a rfl)
  · have hlt' := hlt a' hk
    rw [hsame] at hlt'
    exact Nat.lt_irrefl _ hlt'

/-- As many rounds as there is work to do. -/
theorem atRest_of_rounds (rs : List (List α)) (hrs : ∀ r ∈ rs, IsRound kind r) (s : σ)
    (hlen : work s ≤ rs.length) : AtRest step (rs.flatten.foldl step s) := by
  induction rs generalizing s with
  | nil =>
    intro a
    rcases step_eq_or_lt hstep s a with hsame | hlt
    · exact hsame
    · exact absurd (Nat.lt_of_lt_of_le hlt hlen) (Nat.not_lt_zero _)
  | cons r rs ih =>
    rw [List.flatten_cons, List.foldl_append]
    have hrs' : ∀ r ∈ rs, IsRound kind r := fun r' hr' => hrs r' (List.mem_cons_of_mem _ hr')
    by_cases hrest : AtRest step s
    · rw [hrest.foldl r, hrest.foldl rs.flatten]
      exact hrest
    · have hlt := work_round_lt hstep (hrs r (List.mem_cons_self ..)) hrest
      exact ih hrs' _ (Nat.le_of_lt_succ (Nat.lt_of_lt_of_le hlt hlen))

end Work

end Rounds
