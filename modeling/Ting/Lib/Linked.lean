/-
# `Ting.Lib.Linked` — lists that are linked through a store

Every cell of a store names the next one, or none.  `Chain next h l` says that from the link `h` on
the cells are those of `l`, and then there is none.  As every cell has one successor only, such a
list cannot come back to itself.
-/
import Mathlib.Data.List.Nodup
import Mathlib.Logic.Function.Basic

universe u

namespace Linked

variable {α : Type u} {next next' : α → Option α} {h : Option α} {l l' : List α} {a b : α}

/-- The cells from a link on. -/
inductive Chain (next : α → Option α) : Option α → List α → Prop
  | nil : Chain next none []
  | cons {a : α} {l : List α} (hl : Chain next (next a) l) : Chain next (some a) (a :: l)

namespace Chain

theorem unique (hl : Chain next h l) (hl' : Chain next h l') : l = l' := by
  induction hl generalizing l' with
  | nil =>
    cases hl'
    rfl
  | cons _ ih =>
    cases hl' with
    | cons hl' => rw [ih hl']

/-- From any cell of a chain on it is a chain. -/
theorem suffix {l₁ l₂ : List α} (hl : Chain next h (l₁ ++ a :: l₂)) :
    Chain next (some a) (a :: l₂) := by
  induction l₁ generalizing h with
  | nil =>
    cases hl with
    | cons hl => exact .cons hl
  | cons b l₁ ih =>
    cases hl with
    | cons hl => exact ih hl

/-- A chain is acyclic. -/
theorem nodup (hl : Chain next h l) : l.Nodup := by
  induction hl with
  | nil => exact List.nodup_nil
  | @cons a l hl ih =>
    refine List.nodup_cons.mpr ⟨fun hmem => ?_, ih⟩
    obtain ⟨l₁, l₂, rfl⟩ := List.append_of_mem hmem
    have heq := (Chain.cons hl).unique hl.suffix
    have hlen := congrArg List.length heq
    simp only [List.length_cons, List.length_append] at hlen
    omega

/-- Only the links of the cells of a chain matter. -/
theorem congr (hl : Chain next h l) (hn : ∀ a ∈ l, next' a = next a) : Chain next' h l := by
  induction hl with
  | nil => exact .nil
  | @cons a l _ ih =>
    refine .cons ?_
    rw [hn a List.mem_cons_self]
    exact ih fun b hb => hn b (List.mem_cons_of_mem a hb)

/-- A chain starts at its first cell. -/
theorem of_cons (hl : Chain next h (a :: l)) : h = some a ∧ Chain next (next a) l := by
  cases hl with
  | cons hl => exact ⟨rfl, hl⟩

section Update

variable [DecidableEq α]

theorem update (hl : Chain next h l) (ha : a ∉ l) (x : Option α) :
    Chain (Function.update next a x) h l := by
  refine hl.congr fun b hb => Function.update_of_ne ?_ _ _
  rintro rfl
  exact ha hb

/-- A cell put in front of a chain that it is not in. -/
theorem push (hl : Chain next h l) (ha : a ∉ l) :
    Chain (Function.update next a h) (some a) (a :: l) := by
  refine .cons ?_
  rw [Function.update_self]
  exact hl.update ha h

end Update

end Chain

end Linked
