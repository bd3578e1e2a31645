/-
# `Ting.Lib.TwoPhase` — transactions that lock what they use

Parties run transactions on one memory at the same time, location by location.  A transaction takes
locks as it reads, shared or exclusive; then it enters what it has read and what it writes in a log,
writes it, and gives the locks back.  `Isolated` says that the log is a serial execution: each
transaction has read what the ones before it in the log have left.  The memory is what the log makes
of the first memory, but for what is still to be written.

Each step of a party keeps this, as long as no two parties have locks that exclude each other.
-/
import Ting.Lib.WriteQueue
import Mathlib.Data.List.Induction
import Mathlib.Data.Set.Insert

namespace Ting

universe u v w

namespace TwoPhase

open WriteQueue

/-! ## The log -/

/-- What a transaction has read, and what it writes, in this order. -/
structure Entry (L : Type u) (V : Type v) where
  reads : List (L × V)
  writes : List (L × V)

/-- What a party's transaction has read, what it has still to write, and what it has locked. -/
structure Party (L : Type u) (V : Type v) where
  reads : List (L × V)
  writes : List (L × V)
  shared : Set L
  owned : Set L

variable {L : Type u} {V : Type v} {T : Type w} [DecidableEq L]

/-- The memory when some values have been written, one after the other. -/
def store (m : L → V) (q : List (L × V)) : L → V :=
  flush Prod.fst Prod.snd m q

/-- The memory that the transactions of a log leave. -/
def replay (m : L → V) (log : List (Entry L V)) : L → V :=
  log.foldl (fun m e => store m e.writes) m

/-- Each transaction of the log has read what those before it have left. -/
inductive Serial (m : L → V) : List (Entry L V) → Prop
  | nil : Serial m []
  | snoc {log : List (Entry L V)} {e : Entry L V} (h : Serial m log)
      (he : ∀ p ∈ e.reads, replay m log p.1 = p.2) : Serial m (log ++ [e])

section Replay

variable {m : L → V} {q : List (L × V)} {log : List (Entry L V)} {e : Entry L V} {x : L}

@[simp] theorem store_nil : store m [] = m := rfl

theorem store_of_notMem (h : ∀ p ∈ q, p.1 ≠ x) : store m q x = m x :=
  flush_of_notMem h

@[simp] theorem replay_nil : replay m [] = m := rfl

theorem replay_append : replay m (log ++ [e]) = store (replay m log) e.writes :=
  List.foldl_append ..

/-- The log as a check. -/
def isSerial [DecidableEq V] (m : L → V) : List (Entry L V) → Bool
  | [] => true
  | e :: es => e.reads.all (fun p => m p.1 = p.2) && isSerial (store m e.writes) es

theorem isSerial_append [DecidableEq V] :
    isSerial m (log ++ [e]) = (isSerial m log && e.reads.all fun p => replay m log p.1 = p.2) := by
  induction log generalizing m with
  | nil => rw [List.nil_append, isSerial, isSerial, isSerial, Bool.and_true, Bool.true_and, replay_nil]
  | cons e' log ih =>
      rw [List.cons_append, isSerial, ih, isSerial, Bool.and_assoc]
      rfl

theorem serial_iff [DecidableEq V] : Serial m log ↔ isSerial m log = true := by
  constructor
  · intro h
    induction h with
    | nil => rfl
    | snoc _ he ih =>
        rw [isSerial_append, ih, Bool.true_and, List.all_eq_true]
        exact fun p hp => decide_eq_true (he p hp)
  · intro h
    induction log using List.reverseRecOn with
    | nil => exact .nil
    | append_singleton log e ih =>
        rw [isSerial_append, Bool.and_eq_true_iff, List.all_eq_true] at h
        exact .snoc (ih h.1) fun p hp => of_decide_eq_true (h.2 p hp)

end Replay

/-! ## A party -/

/-- What the party has locked, for reading or for writing. -/
def Party.locked (p : Party L V) : Set L :=
  {x | x ∈ p.shared ∨ x ∈ p.owned}

/-- A party that has locked what it has read and what it writes; what it has read is what the log
has left, and so is memory, once the party has written. -/
structure Party.Sound (r m : L → V) (p : Party L V) : Prop where
  reads : ∀ q ∈ p.reads, q.1 ∈ p.locked
  writes : ∀ q ∈ p.writes, q.1 ∈ p.owned
  current : ∀ q ∈ p.reads, r q.1 = q.2
  written : ∀ x ∈ p.owned, store m p.writes x = r x

/-- A party does not notice what changes elsewhere. -/
theorem Party.Sound.congr {r r' m m' : L → V} {p : Party L V} (h : p.Sound r m)
    (hr : ∀ x ∈ p.locked, r' x = r x) (hm : ∀ x ∈ p.locked, m' x = m x) : p.Sound r' m' where
  reads := h.reads
  writes := h.writes
  current := by
    intro q hq
    rw [hr q.1 (h.reads q hq)]
    exact h.current q hq
  written := by
    intro x hx
    rw [hr x (.inr hx), ← h.written x hx]
    exact flush_congr (hm x (.inr hx))

/-! ## The parties together -/

/-- The log is a serial execution from `m₀` on, and the parties are in the middle of it. -/
structure Isolated (m₀ : L → V) (log : List (Entry L V)) (m : L → V) (c : T → Party L V) :
    Prop where
  apart : ∀ t t', t ≠ t' → ∀ x ∈ (c t).owned, x ∉ (c t').locked
  sound : ∀ t, (c t).Sound (replay m₀ log) m
  rest : ∀ x, (∀ t, x ∉ (c t).owned) → m x = replay m₀ log x
  serial : Serial m₀ log

namespace Isolated

variable {m₀ m m' : L → V} {log log' : List (Entry L V)} {c c' : T → Party L V} {t : T}

/-- At the start nobody has done anything. -/
theorem start (hr : ∀ t, (c t).reads = []) (hw : ∀ t, (c t).writes = [])
    (ho : ∀ t x, x ∉ (c t).owned) : Isolated m [] m c where
  apart := by
    intro t t' _ x hx
    exact (ho t x hx).elim
  sound := by
    intro t
    refine ⟨?_, ?_, ?_, fun x hx => (ho t x hx).elim⟩
    · rw [hr t]
      rintro q ⟨⟩
    · rw [hw t]
      rintro q ⟨⟩
    · rw [hr t]
      rintro q ⟨⟩
  rest := fun _ _ => rfl
  serial := .nil

/-- What a party has locked and does not write is in memory as the log leaves it. -/
theorem memory_of_locked (h : Isolated m₀ log m c) {x : L} (hx : x ∈ (c t).locked)
    (hw : ∀ q ∈ (c t).writes, q.1 ≠ x) : m x = replay m₀ log x := by
  by_cases ho : x ∈ (c t).owned
  · rw [← (h.sound t).written x ho]
    exact (store_of_notMem hw).symm
  · refine h.rest x fun t' hx' => ?_
    rcases eq_or_ne t' t with rfl | hne
    · exact ho hx'
    · exact h.apart t' t hne x hx' hx

/-- When nobody has anything left to write, memory is what the log makes of the first one. -/
theorem memory (h : Isolated m₀ log m c) (hw : ∀ t, (c t).writes = []) : m = replay m₀ log := by
  funext x
  by_cases ho : ∃ t, x ∈ (c t).owned
  · obtain ⟨t, ht⟩ := ho
    refine h.memory_of_locked (.inr ht) ?_
    rw [hw t]
    rintro q ⟨⟩
  · exact h.rest x fun t ht => ho ⟨t, ht⟩

/-- A party has the locks that it had, or more, and those exclude nobody. -/
theorem lock (h : Isolated m₀ log m c) (hc : ∀ t', t' ≠ t → c' t' = c t')
    (hr : (c' t).reads = (c t).reads) (hw : (c' t).writes = (c t).writes)
    (hs : (c t).shared ⊆ (c' t).shared) (ho : (c t).owned ⊆ (c' t).owned)
    (hfree : ∀ t', t' ≠ t → ∀ x, (x ∈ (c' t).owned → x ∉ (c t').locked) ∧
      (x ∈ (c' t).shared → x ∉ (c t').owned)) : Isolated m₀ log m c' where
  apart := by
    intro a b hne x hx
    by_cases ha : a = t
    · subst ha
      rw [hc b hne.symm]
      exact (hfree b hne.symm x).1 hx
    · rw [hc a ha] at hx
      by_cases hb : b = t
      · subst hb
        rintro (hx' | hx')
        · exact (hfree a ha x).2 hx' hx
        · exact (hfree a ha x).1 hx' (.inr hx)
      · rw [hc b hb]
        exact h.apart a b hne x hx
  sound := by
    intro a
    by_cases ha : a = t
    · subst ha
      have hsound := h.sound a
      refine ⟨?_, ?_, ?_, ?_⟩
      · rw [hr]
        intro q hq
        exact (hsound.reads q hq).imp (@hs q.1) (@ho q.1)
      · rw [hw]
        intro q hq
        exact ho (hsound.writes q hq)
      · rw [hr]
        exact hsound.current
      · intro x hx
        rw [hw]
        by_cases hx' : x ∈ (c a).owned
        · exact hsound.written x hx'
        · have hnot : ∀ q ∈ (c a).writes, q.1 ≠ x := by
            rintro q hq rfl
            exact hx' (hsound.writes q hq)
          rw [store_of_notMem hnot]
          refine h.rest x fun b hb => ?_
          by_cases hba : b = a
          · subst hba
            exact hx' hb
          · exact (hfree b hba x).1 hx (.inr hb)
    · rw [hc a ha]
      exact h.sound a
  rest := by
    intro x hx
    refine h.rest x fun a ha => hx a ?_
    by_cases hat : a = t
    · subst hat
      exact ho ha
    · rw [hc a hat]
      exact ha
  serial := h.serial

/-- What a party does with the locks that it has: memory and log change only where it may write. -/
theorem change (h : Isolated m₀ log m c) (hc : ∀ t', t' ≠ t → c' t' = c t')
    (hs : (c' t).shared = (c t).shared) (ho : (c' t).owned = (c t).owned)
    (hsound : (c' t).Sound (replay m₀ log') m')
    (hlog : ∀ x, x ∉ (c t).owned → replay m₀ log' x = replay m₀ log x)
    (hm : ∀ x, x ∉ (c t).owned → m' x = m x) (hserial : Serial m₀ log') :
    Isolated m₀ log' m' c' := by
  have howned : ∀ a, (c' a).owned = (c a).owned := by
    intro a
    by_cases ha : a = t
    · subst ha
      exact ho
    · rw [hc a ha]
  have hshared : ∀ a, (c' a).shared = (c a).shared := by
    intro a
    by_cases ha : a = t
    · subst ha
      exact hs
    · rw [hc a ha]
  refine ⟨?_, ?_, ?_, hserial⟩
  · intro a b hne x hx
    rw [howned] at hx
    rw [Party.locked, howned, hshared]
    exact h.apart a b hne x hx
  · intro a
    by_cases ha : a = t
    · subst ha
      exact hsound
    · rw [hc a ha]
      have hnot : ∀ x ∈ (c a).locked, x ∉ (c t).owned :=
        fun x hx hx' => h.apart t a (Ne.symm ha) x hx' hx
      exact (h.sound a).congr (fun x hx => hlog x (hnot x hx)) fun x hx => hm x (hnot x hx)
  · intro x hx
    have hnot : ∀ a, x ∉ (c a).owned := by
      intro a
      rw [← howned]
      exact hx a
    rw [hm x (hnot t), hlog x (hnot t)]
    exact h.rest x hnot

/-- A party that has nothing to write reads what it has locked. -/
theorem read (h : Isolated m₀ log m c) (hc : ∀ t', t' ≠ t → c' t' = c t') {x : L}
    (hx : x ∈ (c t).locked) (hw : (c t).writes = [])
    (ht : c' t = { c t with reads := (c t).reads ++ [(x, m x)] }) : Isolated m₀ log m c' := by
  have hsound := h.sound t
  have hmem : m x = replay m₀ log x := by
    refine h.memory_of_locked hx ?_
    rw [hw]
    rintro q ⟨⟩
  refine h.change hc (by rw [ht]) (by rw [ht]) ?_ (fun _ _ => rfl) (fun _ _ => rfl) h.serial
  rw [ht]
  refine ⟨?_, hsound.writes, ?_, hsound.written⟩
  · intro q hq
    rcases List.mem_append.mp hq with hq | hq
    · exact hsound.reads q hq
    · rw [List.mem_singleton.mp hq]
      exact hx
  · intro q hq
    rcases List.mem_append.mp hq with hq | hq
    · exact hsound.current q hq
    · rw [List.mem_singleton.mp hq]
      exact hmem.symm

/-- A party enters a transaction in the log, that has read some of what the party has read, and
writes what the party has locked.  What the party then still counts as read is not written. -/
theorem enter (h : Isolated m₀ log m c) (hc : ∀ t', t' ≠ t → c' t' = c t') {e : Entry L V}
    (hw : (c t).writes = []) (he : ∀ q ∈ e.reads, q ∈ (c t).reads)
    (ho : ∀ q ∈ e.writes, q.1 ∈ (c t).owned) {r : List (L × V)}
    (hrs : ∀ q ∈ r, q ∈ (c t).reads ∧ ∀ q' ∈ e.writes, q'.1 ≠ q.1)
    (ht : c' t = { c t with reads := r, writes := e.writes }) :
    Isolated m₀ (log ++ [e]) m c' := by
  have hsound := h.sound t
  refine h.change hc (by rw [ht]) (by rw [ht]) ?_ ?_ (fun _ _ => rfl)
    (.snoc h.serial fun q hq => hsound.current q (he q hq))
  · rw [ht, replay_append]
    refine ⟨fun q hq => hsound.reads q (hrs q hq).1, ho, ?_, ?_⟩
    · intro q hq
      rw [store_of_notMem (hrs q hq).2]
      exact hsound.current q (hrs q hq).1
    · intro x hx
      have hwritten := hsound.written x hx
      rw [hw] at hwritten
      exact flush_congr hwritten
  · intro x hx
    rw [replay_append]
    refine store_of_notMem ?_
    rintro q hq rfl
    exact hx (ho q hq)

/-- A party writes the next value. -/
theorem write (h : Isolated m₀ log m c) (hc : ∀ t', t' ≠ t → c' t' = c t') {q : L × V}
    {qs : List (L × V)} (hw : (c t).writes = q :: qs) (ht : c' t = { c t with writes := qs }) :
    Isolated m₀ log (Function.update m q.1 q.2) c' := by
  have hsound := h.sound t
  have hq : q.1 ∈ (c t).owned := hsound.writes q (hw ▸ List.mem_cons_self)
  refine h.change hc (by rw [ht]) (by rw [ht]) ?_ (fun _ _ => rfl) ?_ h.serial
  · rw [ht]
    refine ⟨hsound.reads, ?_, hsound.current, ?_⟩
    · intro p hp
      exact hsound.writes p (hw ▸ List.mem_cons_of_mem q hp)
    · intro x hx
      have hwritten := hsound.written x hx
      rw [hw] at hwritten
      exact hwritten
  · intro x hx
    refine Function.update_of_ne ?_ _ _
    rintro rfl
    exact hx hq

/-- A party gives locks back, of what it has written, and forgets what it has read there. -/
theorem unlock (h : Isolated m₀ log m c) (hc : ∀ t', t' ≠ t → c' t' = c t')
    (hs : (c' t).shared ⊆ (c t).shared) (ho : (c' t).owned ⊆ (c t).owned)
    (hr : ∀ q ∈ (c' t).reads, q ∈ (c t).reads ∧ q.1 ∈ (c' t).locked)
    (hw : (c' t).writes = (c t).writes) (hkeep : ∀ q ∈ (c t).writes, q.1 ∈ (c' t).owned) :
    Isolated m₀ log m c' := by
  have hsound := h.sound t
  refine ⟨?_, ?_, ?_, h.serial⟩
  · intro a b hne y hy hy'
    have hya : y ∈ (c a).owned := by
      by_cases ha : a = t
      · subst ha
        exact ho hy
      · rw [← hc a ha]
        exact hy
    have hyb : y ∈ (c b).locked := by
      by_cases hb : b = t
      · subst hb
        exact hy'.imp (@hs y) (@ho y)
      · rw [← hc b hb]
        exact hy'
    exact h.apart a b hne y hya hyb
  · intro a
    by_cases ha : a = t
    · subst ha
      refine ⟨fun q hq => (hr q hq).2, ?_, fun q hq => hsound.current q (hr q hq).1, ?_⟩
      · rw [hw]
        exact hkeep
      · intro x hx
        rw [hw]
        exact hsound.written x (ho hx)
    · rw [hc a ha]
      exact h.sound a
  · intro x hx
    by_cases hx' : x ∈ (c t).owned
    · refine h.memory_of_locked (.inr hx') ?_
      rintro q hq rfl
      exact hx t (hkeep q hq)
    · refine h.rest x fun a ha => ?_
      by_cases hat : a = t
      · subst hat
        exact hx' ha
      · refine hx a ?_
        rw [hc a hat]
        exact ha

end Isolated

end TwoPhase

end Ting
