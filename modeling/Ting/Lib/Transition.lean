/-
# `Ting.Lib.Transition` — labelled transition systems, guarded runs and their invariants

A system is an initial predicate and a partial step function: `step a s = none`
says that the action `a` is not enabled in `s`.  A *guarded* run is one whose every
step satisfies a condition `ok` on the state it leaves and the action it takes; an
unguarded run is the case `ok := fun _ _ => True`.  The induction over a run is made
once, in `ReachableWhen.invariant`, and every invariant of the development goes
through it.
-/
import Mathlib.Logic.Relation

universe u v w x

/-- A transition system over states `σ` and actions `α`. -/
structure TransitionSystem (σ : Type u) (α : Type v) where
  init : σ → Prop
  step : α → σ → Option σ

namespace TransitionSystem

variable {σ : Type u} {α : Type v} {T : TransitionSystem σ α}

/-- The states reached by runs all of whose steps satisfy `ok`. -/
inductive ReachableWhen (T : TransitionSystem σ α) (ok : σ → α → Prop) : σ → Prop
  | init {s : σ} : T.init s → ReachableWhen T ok s
  | step {s s' : σ} {a : α} :
      ReachableWhen T ok s → ok s a → T.step a s = some s' → ReachableWhen T ok s'

/-- The states reached by any run. -/
abbrev Reachable (T : TransitionSystem σ α) : σ → Prop :=
  ReachableWhen T fun _ _ => True

/-! ## Invariants -/

/-- A predicate that holds initially and survives every permitted step from a reachable
state holds of every state reached.  The reachability of the source is handed to the step
obligation, so that an invariant can be proved on top of the ones already known. -/
theorem ReachableWhen.invariant {ok : σ → α → Prop} {P : σ → Prop}
    (hinit : ∀ s, T.init s → P s)
    (hstep : ∀ s a s', ReachableWhen T ok s → ok s a → P s → T.step a s = some s' → P s')
    {s : σ} (h : ReachableWhen T ok s) : P s := by
  induction h with
  | init h0 => exact hinit _ h0
  | step hr hok hs ih => exact hstep _ _ _ hr hok ih hs

/-- The unguarded form of `ReachableWhen.invariant`. -/
theorem Reachable.invariant {P : σ → Prop}
    (hinit : ∀ s, T.init s → P s)
    (hstep : ∀ s a s', Reachable T s → P s → T.step a s = some s' → P s')
    {s : σ} (h : Reachable T s) : P s :=
  ReachableWhen.invariant hinit (fun s a s' hr _ hp hs => hstep s a s' hr hp hs) h

/-- Relaxing the guard only adds runs. -/
theorem ReachableWhen.mono {ok ok' : σ → α → Prop} (hle : ∀ s a, ok s a → ok' s a) {s : σ}
    (h : ReachableWhen T ok s) : ReachableWhen T ok' s := by
  induction h with
  | init h0 => exact .init h0
  | step _ hok hs ih => exact .step ih (hle _ _ hok) hs

/-- A guarded run is a run. -/
theorem ReachableWhen.reachable {ok : σ → α → Prop} {s : σ} (h : ReachableWhen T ok s) :
    Reachable T s :=
  h.mono fun _ _ _ => trivial

/-! ## Running a list of actions -/

/-- Perform the listed actions one after the other; `none` as soon as one is not enabled. -/
def run (T : TransitionSystem σ α) : List α → σ → Option σ
  | [], s => some s
  | a :: as, s => (T.step a s).bind (T.run as)

/-- A run of listed actions from a reachable state ends in a reachable state. -/
theorem Reachable.of_run : ∀ {as : List α} {s s' : σ},
    Reachable T s → T.run as s = some s' → Reachable T s'
  | [], _, _, h, hr => by
      simp only [run, Option.some.injEq] at hr
      exact hr ▸ h
  | a :: as, s, s', h, hr => by
      obtain ⟨t, ht, hrest⟩ := Option.bind_eq_some_iff.mp hr
      exact Reachable.of_run (.step h trivial ht) hrest

/-- What a run of listed actions from an initial state shows of its last state is so in a
reachable state. -/
theorem exists_reachable {ν : Type w} {f : σ → ν} {v : ν} (as : List α) {s : σ} (h : T.init s)
    (hr : (T.run as s).map f = some v) : ∃ s', Reachable T s' ∧ f s' = v := by
  obtain ⟨s', hs', hv⟩ := Option.map_eq_some_iff.mp hr
  exact ⟨s', Reachable.of_run (.init h) hs', hv⟩

/-- The same, as long as every action passes a check in the state that it leaves. -/
def runWhen (T : TransitionSystem σ α) (check : σ → α → Bool) : List α → σ → Option σ
  | [], s => some s
  | a :: as, s => if check s a then (T.step a s).bind (T.runWhen check as) else none

/-- A checked run is a guarded one. -/
theorem ReachableWhen.of_runWhen {ok : σ → α → Prop} {check : σ → α → Bool}
    (hok : ∀ s a, check s a → ok s a) : ∀ {as : List α} {s s' : σ},
    ReachableWhen T ok s → T.runWhen check as s = some s' → ReachableWhen T ok s'
  | [], _, _, h, hr => by
      simp only [runWhen, Option.some.injEq] at hr
      exact hr ▸ h
  | a :: as, s, s', h, hr => by
      unfold runWhen at hr
      split at hr
      next hc =>
        obtain ⟨t, ht, hrest⟩ := Option.bind_eq_some_iff.mp hr
        exact ReachableWhen.of_runWhen hok (.step h (hok _ _ hc) ht) hrest
      next => cases hr

/-- A checked run is a run. -/
theorem run_of_runWhen {check : σ → α → Bool} : ∀ {as : List α} {s s' : σ},
    T.runWhen check as s = some s' → T.run as s = some s'
  | [], _, _, hr => hr
  | a :: as, s, s', hr => by
      unfold runWhen at hr
      split at hr
      next =>
        obtain ⟨t, ht, hrest⟩ := Option.bind_eq_some_iff.mp hr
        exact Option.bind_eq_some_iff.mpr ⟨t, ht, run_of_runWhen hrest⟩
      next => cases hr

/-- What a checked run from an initial state shows of its last state is so in a state that a
guarded run reaches. -/
theorem exists_reachableWhen {ok : σ → α → Prop} {check : σ → α → Bool} {ν : Type w} {f : σ → ν}
    {v : ν} (as : List α) {s : σ} (hok : ∀ s a, check s a → ok s a) (h : T.init s)
    (hr : (T.runWhen check as s).map f = some v) : ∃ s', ReachableWhen T ok s' ∧ f s' = v := by
  obtain ⟨s', hs', hv⟩ := Option.map_eq_some_iff.mp hr
  exact ⟨s', .of_runWhen hok (.init h) hs', hv⟩

/-! ## Simulation -/

/-- `s'` is one permitted step from `s`. -/
def StepWhen (T : TransitionSystem σ α) (ok : σ → α → Prop) (s s' : σ) : Prop :=
  ∃ a, ok s a ∧ T.step a s = some s'

/-- Permitted steps lead from states that are reached to such states. -/
theorem ReachableWhen.path {ok : σ → α → Prop} {s s' : σ} (h : ReachableWhen T ok s)
    (hp : Relation.ReflTransGen (T.StepWhen ok) s s') : ReachableWhen T ok s' := by
  induction hp with
  | refl => exact h
  | tail _ hs ih =>
      obtain ⟨a, hok, hs⟩ := hs
      exact .step ih hok hs

/-- Forward simulation: a relation that the initial states satisfy, and that every step keeps
while the second system goes some steps, holds of every state reached and one that the second
system reaches. -/
theorem ReachableWhen.simulated {τ : Type w} {β : Type x} {U : TransitionSystem τ β}
    {ok : σ → α → Prop} {ok' : τ → β → Prop} {R : σ → τ → Prop}
    (hinit : ∀ s, T.init s → ∃ t, U.init t ∧ R s t)
    (hstep : ∀ s a s' t, ReachableWhen T ok s → ReachableWhen U ok' t → ok s a → R s t →
      T.step a s = some s' → ∃ t', Relation.ReflTransGen (U.StepWhen ok') t t' ∧ R s' t')
    {s : σ} (h : ReachableWhen T ok s) : ∃ t, ReachableWhen U ok' t ∧ R s t := by
  induction h with
  | init h0 =>
      obtain ⟨t, ht, hR⟩ := hinit _ h0
      exact ⟨t, .init ht, hR⟩
  | step hr hok hs ih =>
      obtain ⟨t, ht, hR⟩ := ih
      obtain ⟨t', hp, hR'⟩ := hstep _ _ _ t hr ht hok hR hs
      exact ⟨t', ht.path hp, hR'⟩

/-! ## Projection onto another system -/

/-- A map that sends initial states to reachable states and whose image moves only along
runs of the second system carries reachability over. -/
theorem ReachableWhen.map {τ : Type w} {β : Type x} {U : TransitionSystem τ β}
    {ok : σ → α → Prop} (f : σ → τ)
    (hinit : ∀ s, T.init s → Reachable U (f s))
    (hstep : ∀ s a s', ReachableWhen T ok s → Reachable U (f s) → T.step a s = some s' →
      Reachable U (f s'))
    {s : σ} (h : ReachableWhen T ok s) : Reachable U (f s) :=
  ReachableWhen.invariant hinit (fun s a s' hr _ hp hs => hstep s a s' hr hp hs) h

end TransitionSystem
