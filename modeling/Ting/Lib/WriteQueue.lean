/-
# `Ting.Lib.WriteQueue` — a memory with writes under way

A memory that answers reads at once and carries out writes later, the oldest first.  `flush` is what
the memory holds when all the writes are done: it does not change when the oldest is carried out,
and an address that no write is under way to is read as it will be.
-/
import Mathlib.Logic.Function.Basic

namespace Ting

universe u v w x

namespace WriteQueue

variable {ι : Type u} {α : Type v} {β : Type w} {γ : Type x} [DecidableEq ι] {addr : α → ι}
  {val : α → β} {mem mem' : ι → β} {q : List α} {y : α} {i : ι}

/-- The memory when the writes `q` have been carried out. -/
def flush (addr : α → ι) (val : α → β) (mem : ι → β) (q : List α) : ι → β :=
  q.foldl (fun mem y => Function.update mem (addr y) (val y)) mem

@[simp] theorem flush_nil : flush addr val mem [] = mem := rfl

/-- The oldest write. -/
theorem flush_cons :
    flush addr val mem (y :: q) = flush addr val (Function.update mem (addr y) (val y)) q := rfl

/-- The latest write. -/
theorem flush_append :
    flush addr val mem (q ++ [y]) = Function.update (flush addr val mem q) (addr y) (val y) :=
  List.foldl_append ..

/-- An address that nothing is written to. -/
theorem flush_of_notMem (h : ∀ y ∈ q, addr y ≠ i) : flush addr val mem q i = mem i := by
  induction q generalizing mem with
  | nil => rfl
  | cons z q ih =>
      rw [flush_cons, ih fun y hy => h y (List.mem_cons_of_mem z hy)]
      exact Function.update_of_ne (h z List.mem_cons_self).symm _ _

/-- An address that the memories agree on. -/
theorem flush_congr (h : mem i = mem' i) : flush addr val mem q i = flush addr val mem' q i := by
  induction q generalizing mem mem' with
  | nil => exact h
  | cons z q ih =>
      have hz : Function.update mem (addr z) (val z) i = Function.update mem' (addr z) (val z) i := by
        rcases eq_or_ne i (addr z) with rfl | hne
        · rw [Function.update_self, Function.update_self]
        · rw [Function.update_of_ne hne, Function.update_of_ne hne, h]
      exact ih hz

/-- What every write leaves as it is. -/
theorem flush_kept {f : β → γ} (h : ∀ y ∈ q, f (mem (addr y)) = f (val y)) :
    f (flush addr val mem q i) = f (mem i) := by
  induction q generalizing mem with
  | nil => rfl
  | cons z q ih =>
      have hz : ∀ j, f (Function.update mem (addr z) (val z) j) = f (mem j) := by
        intro j
        rcases eq_or_ne j (addr z) with rfl | hne
        · rw [Function.update_self]
          exact (h z List.mem_cons_self).symm
        · rw [Function.update_of_ne hne]
      rw [flush_cons, ih fun y hy => (hz _).trans (h y (List.mem_cons_of_mem z hy)), hz]

end WriteQueue

end Ting
