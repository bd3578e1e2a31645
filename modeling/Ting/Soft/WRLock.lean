/-
# `Ting.Soft.WRLock` — the lock of a line and of a set, access by access

`WRLock` is one 16-bit counter.  Its operations are loops of a load and a `compare_exchange_strong`
on what was loaded, and `wUnlock` is a plain store.  Any number of threads are each somewhere in
such a loop, and any of them makes the next access.

A `compare_exchange` that fails leaves what it found in a local variable, which is set anew before
it is looked at.
-/
import Ting.Lib.RwLock
import Ting.Lib.Total
import Ting.Lib.Transition

namespace Ting

namespace WRLock

/-- `UNLOCKED`. -/
def unlocked : BitVec 16 := 0

/-- `LOCKED`. -/
def locked : BitVec 16 := 1

/-- The public operations that change the counter. -/
inductive Op
  | wLock
  | tryWLock
  | rLock
  | tryRLock
  | rUnlock
  | wUnlock
  deriving DecidableEq

/-- The next access of a thread; `v` is what it has loaded. -/
inductive Pc
  | idle
  | wLoad
  | wCas
  | tryWLoad
  | tryWCas
  | rLoad
  | rCas (v : BitVec 16)
  | tryRLoad
  | tryRCas (v : BitVec 16)
  | rUnlockLoad
  | rUnlockCas (v : BitVec 16)
  | wUnlockStore
  deriving DecidableEq

/-- A thread: its next access, what the last `try_` returned, and how often it holds the lock to
read and to write. -/
structure Thread where
  pc : Pc
  ret : Bool
  reads : ℕ
  writes : ℕ
  deriving DecidableEq

namespace Thread

def goto (t : Thread) (pc : Pc) : Thread := { t with pc := pc }

/-- The end of a `try_`. -/
def giveUp (t : Thread) : Thread := { t with pc := .idle, ret := false }

/-- A thread that holds what it may release begins an operation. -/
def call (t : Thread) : Op → Option Thread
  | .wLock => if t.pc = .idle then some (t.goto .wLoad) else none
  | .tryWLock => if t.pc = .idle then some (t.goto .tryWLoad) else none
  | .rLock => if t.pc = .idle then some (t.goto .rLoad) else none
  | .tryRLock => if t.pc = .idle then some (t.goto .tryRLoad) else none
  | .rUnlock => if t.pc = .idle ∧ 0 < t.reads then some (t.goto .rUnlockLoad) else none
  | .wUnlock => if t.pc = .idle ∧ 0 < t.writes then some (t.goto .wUnlockStore) else none

/-- The next access of the thread to the counter `l`. -/
def access (l : BitVec 16) (t : Thread) : Option (BitVec 16 × Thread) :=
  match t.pc with
  | .idle => none
  | .wLoad => some (l, if l ≠ unlocked then t else t.goto .wCas)
  | .wCas => some (if l = unlocked then (locked, { t with pc := .idle, writes := t.writes + 1 })
      else (l, t.goto .wLoad))
  | .tryWLoad => some (l, if l ≠ unlocked then t.giveUp else t.goto .tryWCas)
  | .tryWCas => some (if l = unlocked then
        (locked, { t with pc := .idle, ret := true, writes := t.writes + 1 })
      else (l, t.giveUp))
  | .rLoad => some (l, if l = locked then t else t.goto (.rCas l))
  | .rCas v => some (if l = v then (v + 2, { t with pc := .idle, reads := t.reads + 1 })
      else (l, t.goto .rLoad))
  | .tryRLoad => some (l, if l = locked then t.giveUp else t.goto (.tryRCas l))
  | .tryRCas v => some (if l = v then
        (v + 2, { t with pc := .idle, ret := true, reads := t.reads + 1 })
      else (l, t.goto .tryRLoad))
  | .rUnlockLoad => some (l, t.goto (.rUnlockCas l))
  | .rUnlockCas v => some (if l = v then (v - 2, { t with pc := .idle, reads := t.reads - 1 })
      else (l, t.goto .rUnlockLoad))
  | .wUnlockStore => some (unlocked, { t with pc := .idle, writes := t.writes - 1 })

end Thread

/-! ## All threads together -/

/-- The counter and the threads. -/
structure State (τ : Type) where
  l : BitVec 16
  threads : τ → Thread

/-- A thread calls an operation or makes its next access. -/
inductive Action (τ : Type)
  | call (t : τ) (op : Op)
  | access (t : τ)

section System

variable {τ : Type} [DecidableEq τ]

def State.step (s : State τ) : Action τ → Option (State τ)
  | .call t op => ((s.threads t).call op).map fun t' =>
      { s with threads := Function.update s.threads t t' }
  | .access t => ((s.threads t).access s.l).map fun p =>
      { l := p.1, threads := Function.update s.threads t p.2 }

/-- `init`; no thread is in an operation or holds the lock. -/
def State.init (τ : Type) : State τ where
  l := unlocked
  threads := fun _ => ⟨.idle, false, 0, 0⟩

/-- The lock and any number of threads that use it. -/
def system (τ : Type) [DecidableEq τ] : TransitionSystem (State τ) (Action τ) where
  init s := s = State.init τ
  step a s := s.step a

variable [Fintype τ]

/-- How often the lock is held to read. -/
def State.readHolds (s : State τ) : ℕ := ∑ t, (s.threads t).reads

/-- How often the lock is held to write. -/
def State.writeHolds (s : State τ) : ℕ := ∑ t, (s.threads t).writes

/-- A step after which there are no more readers than the counter has room for. -/
def Few (s : State τ) (a : Action τ) : Prop :=
  ∀ s' ∈ s.step a, s'.readHolds ≤ 32767

instance (s : State τ) (a : Action τ) : Decidable (Few s a) :=
  inferInstanceAs (Decidable (∀ _ ∈ _, _))

/-- The same as a check that a run can evaluate. -/
def few (s : State τ) (a : Action τ) : Bool := Few s a

theorem few_iff (s : State τ) (a : Action τ) : few s a = true ↔ Few s a :=
  decide_eq_true_iff

end System

/-! ## What an access does -/

/-- What a thread knows where it is: what it has loaded is not a writer's value, and it still holds
what it is about to release. -/
def Thread.Ready (t : Thread) : Prop :=
  match t.pc with
  | .rCas v | .tryRCas v => v ≠ locked
  | .rUnlockLoad | .rUnlockCas _ => 0 < t.reads
  | .wUnlockStore => 0 < t.writes
  | _ => True

/-- The counter and the holds of a thread before and after an access. -/
inductive Effect (l : BitVec 16) (t : Thread) : BitVec 16 → Thread → Prop
  | quiet {t' : Thread} (hr : t'.reads = t.reads) (hw : t'.writes = t.writes) : Effect l t l t'
  | rLock {t' : Thread} (hl : l ≠ locked) (hr : t'.reads = t.reads + 1)
      (hw : t'.writes = t.writes) : Effect l t (l + 2) t'
  | rUnlock {t' : Thread} (hr : t'.reads + 1 = t.reads) (hw : t'.writes = t.writes) :
      Effect l t (l - 2) t'
  | wLock {t' : Thread} (hl : l = unlocked) (hr : t'.reads = t.reads)
      (hw : t'.writes = t.writes + 1) : Effect l t locked t'
  | wUnlock {t' : Thread} (hr : t'.reads = t.reads) (hw : t'.writes + 1 = t.writes) :
      Effect l t unlocked t'

section Access

variable {l l' : BitVec 16} {t t' : Thread} {op : Op}

/-- A call changes neither the counter nor a hold. -/
theorem Thread.call_quiet (h : t.call op = some t') :
    t'.Ready ∧ t'.reads = t.reads ∧ t'.writes = t.writes := by
  cases op
  all_goals
    simp only [call, Option.ite_none_right_eq_some, Option.some.injEq] at h
    obtain ⟨hcan, rfl⟩ := h
  case rUnlock => exact ⟨hcan.2, rfl, rfl⟩
  case wUnlock => exact ⟨hcan.2, rfl, rfl⟩
  all_goals exact ⟨trivial, rfl, rfl⟩

/-- A successful `compare_exchange` found what was loaded, so nothing is lost between the two. -/
theorem Thread.access_effect (hready : t.Ready) (h : t.access l = some (l', t')) :
    t'.Ready ∧ Effect l t l' t' := by
  obtain ⟨pc, ret, reads, writes⟩ := t
  cases pc with
  | idle => cases h
  | wLoad | tryWLoad | rLoad | tryRLoad =>
    obtain ⟨rfl, rfl⟩ := Prod.mk.inj (Option.some.inj h)
    split
    next => exact ⟨trivial, .quiet rfl rfl⟩
    next hl => exact ⟨by first | exact hl | trivial, .quiet rfl rfl⟩
  | wCas | tryWCas =>
    simp only [access, Option.some.injEq] at h
    split at h
    next hl =>
      obtain ⟨rfl, rfl⟩ := Prod.mk.inj h
      exact ⟨trivial, .wLock hl rfl rfl⟩
    next =>
      obtain ⟨rfl, rfl⟩ := Prod.mk.inj h
      exact ⟨trivial, .quiet rfl rfl⟩
  | rCas v | tryRCas v =>
    simp only [access, Option.some.injEq] at h
    split at h
    next hl =>
      obtain ⟨rfl, rfl⟩ := Prod.mk.inj h
      exact ⟨trivial, hl ▸ .rLock (hl ▸ hready) rfl rfl⟩
    next =>
      obtain ⟨rfl, rfl⟩ := Prod.mk.inj h
      exact ⟨trivial, .quiet rfl rfl⟩
  | rUnlockLoad =>
    obtain ⟨rfl, rfl⟩ := Prod.mk.inj (Option.some.inj h)
    exact ⟨hready, .quiet rfl rfl⟩
  | rUnlockCas v =>
    simp only [access, Option.some.injEq] at h
    split at h
    next hl =>
      obtain ⟨rfl, rfl⟩ := Prod.mk.inj h
      exact ⟨trivial, hl ▸ .rUnlock (Nat.sub_add_cancel hready) rfl⟩
    next =>
      obtain ⟨rfl, rfl⟩ := Prod.mk.inj h
      exact ⟨hready, .quiet rfl rfl⟩
  | wUnlockStore =>
    obtain ⟨rfl, rfl⟩ := Prod.mk.inj (Option.some.inj h)
    exact ⟨trivial, .wUnlock rfl (Nat.sub_add_cancel hready)⟩

/-- The counter goes on counting, as long as it has room for the readers; `r` and `w` are the holds
of the other threads. -/
theorem Effect.counts {r w : ℕ} (he : Effect l t l' t')
    (hc : RwLock.Counts l.toNat (r + t.reads) (w + t.writes)) (hfew : r + t'.reads ≤ 32767) :
    RwLock.Counts l'.toNat (r + t'.reads) (w + t'.writes) := by
  cases he with
  | quiet hr hw =>
    rw [hr, hw]
    exact hc
  | rLock hl hr hw =>
    have hne : l.toNat ≠ 1 := fun h => hl (BitVec.eq_of_toNat_eq h)
    have hnext := hc.rLock hne
    have hroom : (l + 2).toNat = l.toNat + 2 := by
      have hv := hnext.excludes.2.2
      rw [BitVec.toNat_add]
      refine Nat.mod_eq_of_lt ?_
      show l.toNat + 2 < 2 ^ 16
      split at hv
      all_goals omega
    rw [hroom, hr, hw]
    exact hnext
  | rUnlock hr hw =>
    rw [← hr, ← Nat.add_assoc] at hc
    obtain ⟨hle, hnext⟩ := hc.rUnlock
    have htwo : (2 : BitVec 16) ≤ l := BitVec.le_def.mpr hle
    rw [BitVec.toNat_sub_of_le htwo, hw]
    exact hnext
  | wLock hl hr hw =>
    rw [hl] at hc
    rw [hr, hw]
    exact hc.wLock
  | wUnlock hr hw =>
    rw [← hw, ← Nat.add_assoc] at hc
    rw [hr]
    exact hc.wUnlock

end Access

/-! ## Every run -/

section Runs

variable {τ : Type} [Fintype τ] {s s' : State τ}

/-- The counter counts all threads, and every thread knows what it needs to. -/
structure State.Inv (s : State τ) : Prop where
  ready : ∀ t, (s.threads t).Ready
  counts : RwLock.Counts s.l.toNat s.readHolds s.writeHolds

theorem State.inv_init : (State.init τ).Inv where
  ready := fun _ => trivial
  counts := by
    have hr : (State.init τ).readHolds = 0 := Finset.sum_eq_zero fun _ _ => rfl
    have hw : (State.init τ).writeHolds = 0 := Finset.sum_eq_zero fun _ _ => rfl
    rw [hr, hw]
    exact RwLock.counts_zero

variable [DecidableEq τ] {a : Action τ}

/-- A step of one thread leaves the holds of the others. -/
theorem State.holds_update (s : State τ) (l : BitVec 16) (t : τ) (t' : Thread) :
    ∃ r w, s.readHolds = r + (s.threads t).reads ∧ s.writeHolds = w + (s.threads t).writes ∧
      State.readHolds ⟨l, Function.update s.threads t t'⟩ = r + t'.reads ∧
        State.writeHolds ⟨l, Function.update s.threads t t'⟩ = w + t'.writes := by
  have hr := Total.sum_update (fun _ => Thread.reads) s.threads t t'
  have hw := Total.sum_update (fun _ => Thread.writes) s.threads t t'
  have hler := Total.le_sum (fun i => (s.threads i).reads) t
  have hlew := Total.le_sum (fun i => (s.threads i).writes) t
  refine ⟨s.readHolds - (s.threads t).reads, s.writeHolds - (s.threads t).writes, ?_⟩
  simp only [readHolds, writeHolds] at *
  omega

theorem State.Inv.ready_update {t : τ} {t' : Thread} (hi : s.Inv) (ht : t'.Ready) (u : τ) :
    (Function.update s.threads t t' u).Ready := by
  by_cases hu : u = t
  · rw [hu, Function.update_self]
    exact ht
  · rw [Function.update_of_ne hu]
    exact hi.ready u

theorem State.Inv.step (hi : s.Inv) (hfew : Few s a) (h : s.step a = some s') : s'.Inv := by
  have hroom := hfew s' h
  cases a with
  | call t op =>
    obtain ⟨t', hcall, rfl⟩ := Option.map_eq_some_iff.mp h
    obtain ⟨hready, hr, hw⟩ := Thread.call_quiet hcall
    refine ⟨hi.ready_update hready, ?_⟩
    obtain ⟨r, w, hsr, hsw, hsr', hsw'⟩ := s.holds_update s.l t t'
    have hc := hi.counts
    rw [hsr, hsw, ← hr, ← hw] at hc
    rw [hsr', hsw']
    exact hc
  | access t =>
    obtain ⟨⟨l', t'⟩, hacc, rfl⟩ := Option.map_eq_some_iff.mp h
    obtain ⟨hready, heffect⟩ := Thread.access_effect (hi.ready t) hacc
    refine ⟨hi.ready_update hready, ?_⟩
    obtain ⟨r, w, hsr, hsw, hsr', hsw'⟩ := s.holds_update l' t t'
    have hc := hi.counts
    rw [hsr, hsw] at hc
    rw [hsr'] at hroom
    rw [hsr', hsw']
    exact heffect.counts hc hroom

theorem inv (hr : (system τ).ReachableWhen Few s) : s.Inv :=
  TransitionSystem.ReachableWhen.invariant (fun _ h0 => h0 ▸ State.inv_init)
    (fun _ _ _ _ hfew hi hs => hi.step hfew hs) hr

/-- A writer is alone, the counter is 1 with a writer and twice the number of readers without, and
0 when everything is released. -/
theorem exclusion (hr : (system τ).ReachableWhen Few s) :
    s.writeHolds ≤ 1 ∧ (0 < s.writeHolds → s.readHolds = 0) ∧
      s.l.toNat = (if 0 < s.writeHolds then 1 else 2 * s.readHolds) ∧
      (s.readHolds = 0 → s.writeHolds = 0 → s.l = unlocked) := by
  obtain ⟨hle, halone, hcount⟩ := (inv hr).counts.excludes
  refine ⟨hle, halone, hcount, fun hr0 hw0 => BitVec.eq_of_toNat_eq ?_⟩
  rw [hcount, hr0, hw0]
  rfl

end Runs

/-- Two readers, one of which was overtaken between its load and its `compare_exchange`. -/
theorem exclusion_two_readers :
    ∃ s, (system Bool).ReachableWhen Few s ∧ s.readHolds = 2 ∧ s.l = 4 := by
  obtain ⟨s, hr, hv⟩ := TransitionSystem.exists_reachableWhen (T := system Bool)
    (f := fun s => (s.readHolds, s.writeHolds)) (v := (2, 0))
    [.call true .rLock, .access true, .call false .tryRLock, .access false, .access false,
      .access true, .access true, .access true]
    (fun s a => (few_iff s a).mp) rfl (by decide +kernel)
  obtain ⟨hreads, hwrites⟩ := Prod.mk.inj hv
  refine ⟨s, hr, hreads, BitVec.eq_of_toNat_eq ?_⟩
  rw [(exclusion hr).2.2.1, hreads, hwrites]
  rfl

end WRLock

end Ting
