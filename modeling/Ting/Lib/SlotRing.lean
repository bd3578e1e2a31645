/-
# `Ting.Lib.SlotRing` — a ring of slots between two parties that share no counter

A producer puts messages into the slots of a ring, each with a flag that says that the slot is
full, and its writes arrive one after the other.  The consumer polls the flag at its head, clears
it, posts its head to the producer and only then steps it; what it posts arrives late, but in
order.  The producer stops one slot short of the head it sees.

So the head that the producer sees is at least one behind the consumer's: the slot that was taken
last is never written to, and neither is one that still holds a message.  The messages are counted
from some `base`, and message number `i` has the slot `(base + i) % n`.
-/
import Ting.Lib.Transition
import Mathlib.Order.Interval.Finset.Nat
import Mathlib.Data.List.Basic

universe u

/-- Where the consumer is; it may take a copy of the message. -/
inductive SlotRing.Stage (μ : Type u)
  | polling
  | found (copy : Option μ)
  | released (copy : Option μ)
  | posted (copy : Option μ)

/-- The ring and its parties.  `sent` and `received` are histories. -/
@[ext] structure SlotRing (μ : Type u) where
  tail : ℕ
  /-- The head as the producer sees it. -/
  seen : ℕ
  /-- What has been posted and not arrived. -/
  posts : List ℕ
  /-- The writes on their way to the slots. -/
  flight : List (ℕ × μ)
  full : ℕ → Bool
  cell : ℕ → μ
  head : ℕ
  stage : SlotRing.Stage μ
  /-- The slot that was taken last. -/
  last : Option ℕ
  sent : List μ
  received : List μ

namespace SlotRing

variable {μ : Type u} {n : ℕ}

/-- The steps of the parties and of what is between them. -/
inductive Action (μ : Type u)
  | send (m : μ)
  | write
  | see
  | poll
  | copy
  | release
  | post (times : ℕ)
  | next

/-- One step of a ring with `n` slots. -/
def step (n : ℕ) (a : Action μ) (s : SlotRing μ) : Option (SlotRing μ) :=
  match a with
  | .send m =>
      if (s.tail + 1) % n ≠ s.seen then
        some { s with
          tail := (s.tail + 1) % n
          flight := s.flight ++ [(s.tail, m)]
          sent := s.sent ++ [m] }
      else none
  | .write =>
      match s.flight with
      | (i, m) :: rest => some { s with
          flight := rest
          full := Function.update s.full i true
          cell := Function.update s.cell i m }
      | [] => none
  | .see =>
      match s.posts with
      | h :: rest => some { s with seen := h, posts := rest }
      | [] => none
  | .poll =>
      match s.stage with
      | .polling => if s.full s.head then some { s with stage := .found none } else none
      | _ => none
  | .copy =>
      match s.stage with
      | .found _ => some { s with stage := .found (some (s.cell s.head)) }
      | _ => none
  | .release =>
      match s.stage with
      | .found c => some { s with
          full := Function.update s.full s.head false
          stage := .released c }
      | _ => none
  | .post times =>
      match s.stage with
      | .released c => some { s with
          posts := s.posts ++ List.replicate times s.head
          stage := .posted c }
      | _ => none
  | .next =>
      match s.stage with
      | .posted c => some { s with
          head := (s.head + 1) % n
          received := s.received ++ [c.getD (s.cell s.head)]
          last := some s.head
          stage := .polling }
      | _ => none

/-- All indices equal, all flags clear, nothing under way. -/
structure Init (n : ℕ) (s : SlotRing μ) : Prop where
  lt : s.head < n
  tail : s.tail = s.head
  seen : s.seen = s.head
  posts : s.posts = []
  flight : s.flight = []
  full : ∀ i, s.full i = false
  stage : s.stage = .polling
  last : s.last = none
  sent : s.sent = []
  received : s.received = []

/-- The ring as a transition system. -/
def system (μ : Type u) (n : ℕ) : TransitionSystem (SlotRing μ) (Action μ) :=
  ⟨Init n, step n⟩

/-! ## The invariant -/

/-- The flag of the message at the head has been cleared. -/
def Stage.taken : Stage μ → Bool
  | .released _ | .posted _ => true
  | _ => false

/-- What has been copied. -/
def Stage.copied : Stage μ → Option μ
  | .polling => none
  | .found c | .released c | .posted c => c

/-- How many slots the consumer has given up: not yet the one that it took last, unless it has
posted the next. -/
def freed (s : SlotRing μ) : ℕ :=
  match s.stage with
  | .posted _ => s.received.length
  | _ => s.received.length - 1

theorem freed_le (s : SlotRing μ) : s.freed ≤ s.received.length := by
  unfold freed
  split
  next => exact Nat.le_refl _
  next => exact Nat.sub_le _ _

/-- The messages in the slots are `kept`, those in flight are `flying`; the producer sees that
`count` messages have been given up, and `counts` are on their way. -/
structure Inv (n base : ℕ) (s : SlotRing μ) (kept flying : List μ) (count : ℕ)
    (counts : List ℕ) : Prop where
  sent : s.sent = s.received ++ kept ++ flying
  tail : s.tail = (base + s.sent.length) % n
  head : s.head = (base + s.received.length) % n
  flight : s.flight = (flying.zipIdx (base + s.received.length + kept.length)).map
    fun p => (p.2 % n, p.1)
  seen : s.seen = (base + count) % n
  posts : s.posts = counts.map fun h => (base + h) % n
  sorted : (count :: counts).Pairwise (· ≤ ·)
  le : ∀ h ∈ count :: counts, h ≤ s.freed
  window : s.sent.length < count + n
  cell : ∀ j (hj : j < kept.length), s.cell ((base + s.received.length + j) % n) = kept[j]
  full : ∀ i, s.full i = true ↔ ∃ j < kept.length, (s.stage.taken = true → 0 < j) ∧
    i = (base + s.received.length + j) % n
  stage : s.stage ≠ .polling → kept ≠ []
  copied : ∀ m, s.stage.copied = some m → kept.head? = some m
  last : (∀ c, s.stage ≠ .posted c) → ∀ m, s.received.getLast? = some m →
    s.cell ((base + s.received.length - 1) % n) = m
  slot : ∀ i, s.last = some i → s.received ≠ [] ∧ i = (base + s.received.length - 1) % n

/-- Numbers that are less than `n` apart have different slots. -/
theorem slot_inj {n k a b : ℕ} (ha : k ≤ a) (ha' : a < k + n) (hb : k ≤ b) (hb' : b < k + n)
    (h : a % n = b % n) : a = b :=
  Nat.mod_injOn_Ico k n (Finset.mem_coe.mpr (Finset.mem_Ico.mpr ⟨ha, ha'⟩))
    (Finset.mem_coe.mpr (Finset.mem_Ico.mpr ⟨hb, hb'⟩)) h

namespace Inv

variable {base count : ℕ} {s s' : SlotRing μ} {kept flying : List μ} {counts : List ℕ}

theorem of_init (h : Init n s) : Inv n s.head s [] [] 0 [] where
  sent := by rw [h.sent, h.received]; rfl
  tail := by rw [h.sent, h.tail]; exact (Nat.mod_eq_of_lt h.lt).symm
  head := by rw [h.received]; exact (Nat.mod_eq_of_lt h.lt).symm
  flight := h.flight
  seen := by rw [h.seen]; exact (Nat.mod_eq_of_lt h.lt).symm
  posts := h.posts
  sorted := List.pairwise_singleton _ _
  le := by
    intro c hc
    rw [List.mem_singleton.mp hc]
    exact Nat.zero_le _
  window := by rw [h.sent, Nat.zero_add]; exact Nat.zero_lt_of_lt h.lt
  cell := nofun
  full := by
    intro i
    rw [h.full]
    exact ⟨nofun, nofun⟩
  stage := fun hs => absurd h.stage hs
  copied := by rw [h.stage]; nofun
  last := by rw [h.received]; nofun
  slot := by rw [h.last]; nofun

/-- Fewer than `n` messages are between what has been given up and what has been sent. -/
theorem sent_lt (h : Inv n base s kept flying count counts) :
    s.received.length + kept.length + flying.length < s.freed + n := by
  have hlen : s.sent.length = s.received.length + kept.length + flying.length := by
    rw [h.sent, List.length_append, List.length_append]
  have hle := h.le count (List.mem_cons_self ..)
  have hwin := h.window
  omega

/-- Messages that have not been given up have different slots. -/
theorem slot_ne (h : Inv n base s kept flying count counts) {a b : ℕ} (ha : s.freed ≤ a)
    (ha' : a < s.received.length + kept.length + flying.length) (hb : s.freed ≤ b)
    (hb' : b < s.received.length + kept.length + flying.length) (hne : a ≠ b) :
    (base + a) % n ≠ (base + b) % n := by
  intro heq
  have hlt := h.sent_lt
  have hab := slot_inj (k := base + s.freed) (by omega) (by omega) (by omega) (by omega) heq
  omega

/-- The slots of a message in a slot and of one in flight. -/
theorem slot_flight_ne (h : Inv n base s kept flying count counts) {a j : ℕ} (ha : s.freed ≤ a)
    (ha' : a < s.received.length + kept.length) (hj : j < flying.length) :
    (base + a) % n ≠ (base + s.received.length + kept.length + j) % n := by
  have hb : s.freed ≤ s.received.length + kept.length + j :=
    s.freed_le.trans (Nat.le_add_right_of_le (Nat.le_add_right _ _))
  have hne := h.slot_ne ha (by omega) hb (by omega) (by omega)
  rwa [← Nat.add_assoc, ← Nat.add_assoc] at hne

theorem send {m : μ} (h : Inv n base s kept flying count counts)
    (hs : step n (.send m) s = some s') :
    Inv n base s' kept (flying ++ [m]) count counts := by
  obtain ⟨hok, hs⟩ := Option.ite_none_right_eq_some.mp hs
  cases hs
  have hlen : s.sent.length = s.received.length + kept.length + flying.length := by
    rw [h.sent, List.length_append, List.length_append]
  have htail : (s.tail + 1) % n = (base + (s.sent.length + 1)) % n := by
    rw [h.tail, Nat.mod_add_mod, Nat.add_assoc]
  refine { h with sent := ?_, tail := ?_, flight := ?_, window := ?_ }
  · show s.sent ++ [m] = _
    rw [h.sent, List.append_assoc]
  · show (s.tail + 1) % n = (base + (s.sent ++ [m]).length) % n
    rw [htail, List.length_append]
    rfl
  · show s.flight ++ [(s.tail, m)] = _
    rw [h.flight, h.tail, hlen, List.zipIdx_append, List.map_append, ← Nat.add_assoc,
      ← Nat.add_assoc]
    rfl
  · show (s.sent ++ [m]).length < count + n
    rw [List.length_append]
    refine Nat.lt_of_le_of_ne h.window fun heq => hok ?_
    rw [htail, h.seen]
    change s.sent.length + 1 = count + n at heq
    rw [heq, ← Nat.add_assoc, Nat.add_mod_right]

theorem write (h : Inv n base s kept flying count counts) (hs : step n .write s = some s') :
    ∃ m rest, flying = m :: rest ∧ Inv n base s' (kept ++ [m]) rest count counts := by
  cases hf : flying with
  | nil =>
      simp only [step, h.flight, hf, List.zipIdx_nil, List.map_nil] at hs
      cases hs
  | cons m rest =>
      subst hf
      simp only [step, h.flight, List.zipIdx_cons, List.map_cons, Option.some.injEq] at hs
      subst hs
      have hsame : s.freed ≤ s.received.length := s.freed_le
      have hne : ∀ a, s.freed ≤ a → a < s.received.length + kept.length →
          (base + a) % n ≠ (base + s.received.length + kept.length) % n := fun a ha ha' =>
        h.slot_flight_ne (j := 0) ha ha' (Nat.succ_pos _)
      refine ⟨m, rest, rfl, ?_, h.tail, h.head, ?_, h.seen, h.posts, h.sorted, h.le, h.window, ?_,
        fun i => ?_, fun _ hnil => ?_, fun c hc => ?_, fun hstage m' hm' => ?_, h.slot⟩
      · rw [h.sent, List.append_assoc, List.append_assoc, List.append_assoc]
        rfl
      · rw [List.length_append]
        rfl
      · intro j hj
        show Function.update s.cell ((base + s.received.length + kept.length) % n) m
          ((base + s.received.length + j) % n) = _
        rw [List.length_append, List.length_singleton] at hj
        rcases Nat.lt_succ_iff_lt_or_eq.mp hj with hold | rfl
        · have hslot := hne (s.received.length + j) (Nat.le_add_right_of_le hsame)
            (Nat.add_lt_add_left hold _)
          rw [← Nat.add_assoc] at hslot
          rw [List.getElem_append_left hold, Function.update_of_ne hslot]
          exact h.cell j hold
        · rw [List.getElem_concat_length rfl, Function.update_self]
      · show Function.update s.full _ true i = true ↔ _
        rw [List.length_append, List.length_singleton]
        by_cases hi : i = (base + s.received.length + kept.length) % n
        · rw [hi, Function.update_self]
          refine iff_of_true rfl ⟨kept.length, Nat.lt_succ_self _, fun htaken => ?_, rfl⟩
          refine List.length_pos_iff.mpr (h.stage ?_)
          intro hpoll
          rw [hpoll] at htaken
          cases htaken
        · rw [Function.update_of_ne hi, h.full]
          constructor
          · rintro ⟨j, hj, hrest⟩
            exact ⟨j, Nat.lt_succ_of_lt hj, hrest⟩
          · rintro ⟨j, hj, htaken, rfl⟩
            rcases Nat.lt_succ_iff_lt_or_eq.mp hj with hold | rfl
            · exact ⟨j, hold, htaken, rfl⟩
            · exact absurd rfl hi
      · exact List.append_ne_nil_of_right_ne_nil _ (List.cons_ne_nil _ _) hnil
      · have hhead := h.copied c hc
        rw [List.head?_append, hhead]
        rfl
      · rw [← h.last hstage m' hm']
        have hpos : 0 < s.received.length := by
          refine List.length_pos_iff.mpr fun hnil => ?_
          rw [hnil] at hm'
          cases hm'
        have hfreed : s.freed = s.received.length - 1 := by
          unfold freed
          split
          next hpost => exact absurd hpost (hstage _)
          next => rfl
        have hlt := hne (s.received.length - 1) hfreed.le (by omega)
        rw [← Nat.add_sub_assoc hpos] at hlt
        exact Function.update_of_ne hlt _ _

theorem see (h : Inv n base s kept flying count counts) (hs : step n .see s = some s') :
    ∃ c rest, counts = c :: rest ∧ Inv n base s' kept flying c rest := by
  cases hc : counts with
  | nil =>
      simp only [step, h.posts, hc, List.map_nil] at hs
      cases hs
  | cons c rest =>
      subst hc
      simp only [step, h.posts, List.map_cons, Option.some.injEq] at hs
      subst hs
      obtain ⟨hfirst, hrest⟩ := List.pairwise_cons.mp h.sorted
      refine ⟨c, rest, rfl, { h with seen := rfl, posts := rfl, sorted := hrest, le := ?_, window := ?_ }⟩
      · exact fun x hx => h.le x (List.mem_cons_of_mem _ hx)
      · exact h.window.trans_le (Nat.add_le_add_right (hfirst c (List.mem_cons_self ..)) n)

theorem poll (h : Inv n base s kept flying count counts) (hs : step n .poll s = some s') :
    Inv n base s' kept flying count counts := by
  simp only [step] at hs
  split at hs
  next hstage =>
    obtain ⟨hfull, hs⟩ := Option.ite_none_right_eq_some.mp hs
    cases hs
    obtain ⟨j, hj, -⟩ := (h.full _).mp hfull
    have hfreed : s.freed = s.received.length - 1 := by rw [freed, hstage]
    refine ⟨h.sent, h.tail, h.head, h.flight, h.seen, h.posts, h.sorted, ?_, h.window, h.cell,
      fun i => ?_, fun _ hnil => ?_, nofun, fun _ => h.last ?_, h.slot⟩
    · exact fun c hc => (h.le c hc).trans_eq hfreed
    · rw [h.full, hstage]
      rfl
    · rw [hnil] at hj
      exact Nat.not_lt_zero _ hj
    · rw [hstage]
      nofun
  next => cases hs

theorem copy (h : Inv n base s kept flying count counts) (hs : step n .copy s = some s') :
    Inv n base s' kept flying count counts := by
  simp only [step] at hs
  split at hs
  next c hstage =>
    cases hs
    have hne : kept ≠ [] := h.stage (by rw [hstage]; nofun)
    have hfreed : s.freed = s.received.length - 1 := by rw [freed, hstage]
    refine ⟨h.sent, h.tail, h.head, h.flight, h.seen, h.posts, h.sorted, ?_, h.window, h.cell,
      fun i => ?_, fun _ => hne, fun m hm => ?_, fun _ => h.last ?_, h.slot⟩
    · exact fun c hc => (h.le c hc).trans_eq hfreed
    · rw [h.full, hstage]
      rfl
    · cases hm
      have hcell := h.cell 0 (List.length_pos_iff.mpr hne)
      rw [Nat.add_zero, ← h.head] at hcell
      rw [hcell, List.head?_eq_getElem?, List.getElem?_eq_getElem]
    · rw [hstage]
      nofun
  next => cases hs

theorem release (h : Inv n base s kept flying count counts) (hs : step n .release s = some s') :
    Inv n base s' kept flying count counts := by
  simp only [step] at hs
  split at hs
  next c hstage =>
    cases hs
    have hne : kept ≠ [] := h.stage (by rw [hstage]; nofun)
    have hpos : 0 < kept.length := List.length_pos_iff.mpr hne
    have hfreed : s.freed = s.received.length - 1 := by rw [freed, hstage]
    have htaken : s.stage.taken = false := by rw [hstage]; rfl
    refine ⟨h.sent, h.tail, h.head, h.flight, h.seen, h.posts, h.sorted, ?_, h.window, h.cell,
      fun i => ?_, fun _ => hne, fun m hm => h.copied m ?_, fun _ => h.last ?_, h.slot⟩
    · exact fun c hc => (h.le c hc).trans_eq hfreed
    · show Function.update s.full s.head false i = true ↔ _
      by_cases hi : i = s.head
      · rw [hi, Function.update_self]
        refine iff_of_false Bool.false_ne_true ?_
        rintro ⟨j, hj, hjpos, heq⟩
        rw [h.head] at heq
        refine h.slot_ne (a := s.received.length) (b := s.received.length + j) s.freed_le (by omega)
          (Nat.le_add_right_of_le s.freed_le) (by omega) ?_ ?_
        · exact Nat.ne_of_lt (Nat.lt_add_of_pos_right (hjpos rfl))
        · rw [heq, Nat.add_assoc]
      · rw [Function.update_of_ne hi, h.full]
        constructor
        · rintro ⟨j, hj, -, rfl⟩
          refine ⟨j, hj, fun _ => Nat.pos_of_ne_zero ?_, rfl⟩
          rintro rfl
          exact hi h.head.symm
        · rintro ⟨j, hj, -, rfl⟩
          refine ⟨j, hj, fun ht => ?_, rfl⟩
          rw [htaken] at ht
          cases ht
    · rw [hstage]
      exact hm
    · rw [hstage]
      nofun
  next => cases hs

theorem post {times : ℕ} (h : Inv n base s kept flying count counts)
    (hs : step n (.post times) s = some s') :
    Inv n base s' kept flying count (counts ++ List.replicate times s.received.length) := by
  simp only [step] at hs
  split at hs
  next c hstage =>
    cases hs
    have hle : ∀ x ∈ count :: counts, x ≤ s.received.length := fun x hx =>
      (h.le x hx).trans s.freed_le
    refine ⟨h.sent, h.tail, h.head, h.flight, h.seen, ?_, ?_, ?_, h.window, h.cell,
      fun i => ?_, fun _ => h.stage (by rw [hstage]; nofun), fun m hm => h.copied m ?_,
      fun hno => absurd rfl (hno c), h.slot⟩
    · show s.posts ++ List.replicate times s.head = _
      rw [h.posts, h.head, List.map_append, List.map_replicate]
    · rw [← List.cons_append]
      refine List.pairwise_append.mpr ⟨h.sorted, ?_, fun x hx y hy => ?_⟩
      · exact List.pairwise_replicate.mpr (.inr (Nat.le_refl _))
      · rw [List.eq_of_mem_replicate hy]
        exact hle x hx
    · intro x hx
      rw [← List.cons_append] at hx
      rcases List.mem_append.mp hx with hold | hnew
      · exact hle x hold
      · exact (List.eq_of_mem_replicate hnew).le
    · rw [h.full, hstage]
      rfl
    · rw [hstage]
      exact hm
  next => cases hs

theorem next (h : Inv n base s kept flying count counts) (hs : step n .next s = some s') :
    ∃ m rest, kept = m :: rest ∧ s'.received = s.received ++ [m] ∧
      Inv n base s' rest flying count counts := by
  simp only [step] at hs
  split at hs
  next c hstage =>
    cases hs
    cases hk : kept with
    | nil => exact absurd hk (h.stage (by rw [hstage]; nofun))
    | cons m rest =>
        subst hk
        have hhead : s.cell s.head = m := by
          have hcell := h.cell 0 (Nat.succ_pos _)
          rwa [Nat.add_zero, ← h.head] at hcell
        have hm : c.getD (s.cell s.head) = m := by
          cases hc : c with
          | none => exact hhead
          | some m' =>
              have hcopy := h.copied m' (by rw [hstage, hc]; rfl)
              exact (Option.some.inj hcopy).symm
        have hlen : (s.received ++ [m]).length = s.received.length + 1 := by
          rw [List.length_append]
          rfl
        have hshift : ∀ j, base + (s.received.length + 1) + j = base + s.received.length + (j + 1) :=
          fun j => by omega
        rw [hm]
        refine ⟨m, rest, rfl, rfl, ?_, h.tail, ?_, ?_, h.seen, h.posts, h.sorted, ?_, h.window,
          fun j hj => ?_, fun i => ?_, nofun, nofun, fun _ m' hm' => ?_, fun i hi => ?_⟩
        · rw [h.sent, List.append_assoc s.received [m]]
          rfl
        · show (s.head + 1) % n = (base + (s.received ++ [m]).length) % n
          rw [hlen, h.head, Nat.mod_add_mod, Nat.add_assoc]
        · show s.flight = ((flying.zipIdx (base + (s.received ++ [m]).length + rest.length)).map _)
          rw [h.flight, hlen, hshift]
          rfl
        · intro x hx
          show x ≤ (s.received ++ [m]).length - 1
          rw [hlen, Nat.add_sub_cancel]
          exact (h.le x hx).trans s.freed_le
        · show s.cell ((base + (s.received ++ [m]).length + j) % n) = _
          rw [hlen, hshift]
          exact h.cell (j + 1) (Nat.succ_lt_succ hj)
        · show s.full i = true ↔ ∃ j < rest.length, (false = true → 0 < j) ∧
            i = (base + (s.received ++ [m]).length + j) % n
          rw [h.full, hstage, hlen]
          constructor
          · rintro ⟨j, hj, hpos, rfl⟩
            obtain ⟨k, rfl⟩ := Nat.exists_eq_succ_of_ne_zero (hpos rfl).ne'
            exact ⟨k, Nat.lt_of_succ_lt_succ hj, nofun, by rw [hshift]⟩
          · rintro ⟨j, hj, -, rfl⟩
            exact ⟨j + 1, Nat.succ_lt_succ hj, fun _ => Nat.succ_pos _, by rw [hshift]⟩
        · rw [List.getLast?_concat] at hm'
          cases hm'
          show s.cell ((base + (s.received ++ [m]).length - 1) % n) = m
          rw [hlen, ← Nat.add_assoc, Nat.add_sub_cancel, ← h.head]
          exact hhead
        · cases hi
          refine ⟨List.append_ne_nil_of_right_ne_nil _ (List.cons_ne_nil _ _), ?_⟩
          show s.head = (base + (s.received ++ [m]).length - 1) % n
          rw [hlen, ← Nat.add_assoc, Nat.add_sub_cancel, h.head]
  next => cases hs

/-- What has been sent and not received is in the ring or on its way there, in order; fewer than
`n` messages are. -/
theorem pending (h : Inv n base s kept flying count counts) :
    s.sent = s.received ++ (kept ++ flying) ∧ (kept ++ flying).length < n := by
  refine ⟨by rw [h.sent, List.append_assoc], ?_⟩
  have hlt := h.sent_lt
  have hfreed := s.freed_le
  rw [List.length_append]
  omega

theorem of_reachable (h : (system μ n).Reachable s) :
    ∃ base kept flying count counts, Inv n base s kept flying count counts := by
  refine h.invariant (P := fun s => ∃ base kept flying count counts,
    Inv n base s kept flying count counts) (fun s hi => ⟨_, _, _, _, _, .of_init hi⟩)
    fun s a s' _ hinv hs => ?_
  obtain ⟨base, kept, flying, count, counts, hinv⟩ := hinv
  cases a with
  | send m => exact ⟨_, _, _, _, _, hinv.send hs⟩
  | write =>
      obtain ⟨m, rest, -, hw⟩ := hinv.write hs
      exact ⟨_, _, _, _, _, hw⟩
  | see =>
      obtain ⟨c, rest, -, hw⟩ := hinv.see hs
      exact ⟨_, _, _, _, _, hw⟩
  | poll => exact ⟨_, _, _, _, _, hinv.poll hs⟩
  | copy => exact ⟨_, _, _, _, _, hinv.copy hs⟩
  | release => exact ⟨_, _, _, _, _, hinv.release hs⟩
  | post times => exact ⟨_, _, _, _, _, hinv.post hs⟩
  | next =>
      obtain ⟨m, rest, -, -, hw⟩ := hinv.next hs
      exact ⟨_, _, _, _, _, hw⟩

end Inv

end SlotRing
