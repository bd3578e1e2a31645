/-
# `Ting.Soft.Searches` — what an agent's search rules out

A line that is not empty has the tag of its address (`Addressed`).  An agent that looks for a
tag holds the lock of the set, so a line that it has passed over stays without the tag, and so
do the others when it has found one (`Sought`): an agent that finds nothing is right.
-/
import Ting.Soft.Unique

namespace Ting

/-- The lines of the set that an agent has ruled out. -/
def AgentPc.passed : AgentPc → LineRef → Prop
  | find m todo, r => r.set = calLineSet m.clineTag ∧ r.shadow = false ∧ r.slot ∉ todo
  | findShadow m none todo, r => r.set = calLineSet m.clineTag ∧ (r.shadow = false ∨ r.slot ∉ todo)
  | loop m x, r => r.set = calLineSet m.clineTag ∧ r ≠ x
  | _, _ => False

/-- It holds the lock of their set. -/
theorem AgentPc.passed_inSet {p : AgentPc} {r : LineRef} (h : p.passed r) : p.inSet = some r.set := by
  match p, h with
  | find m todo, h | loop m x, h => exact congrArg some h.1.symm
  | findShadow m none todo, h => exact congrArg some h.1.symm

namespace Host

variable {h h' : Host} {r : LineRef}

/-! ## Addresses -/

/-- Only an insertion changes the tag or the address of a line. -/
theorem Stepped.address {a : HostAction} (hs : Stepped h a h') (r : LineRef) :
    ((h'.lines r).addr = (h.lines r).addr ∧ (h'.lines r).tag = (h.lines r).tag) ∨
      ∃ τ ptr, a = .insert τ ptr := by
  have hset : ∀ {x : LineRef} {l : LineInfo}, l.addr = (h.lines x).addr → l.tag = (h.lines x).tag →
      ((h.setLine x l).lines r).addr = (h.lines r).addr ∧
        ((h.setLine x l).lines r).tag = (h.lines r).tag := by
    intro x l ha ht
    rw [setLine_lines]
    rcases eq_or_ne r x with rfl | hne
    · rw [Function.update_self]
      exact ⟨ha, ht⟩
    · rw [Function.update_of_ne hne]
      exact ⟨rfl, rfl⟩
  cases hs with
  | insert => exact .inr ⟨_, _, rfl⟩
  | finish _ hp =>
      obtain ⟨-, ⟨-, rfl, -⟩ | ⟨-, -, rfl⟩⟩ := LineInfo.publish_eq hp <;> exact .inl (hset rfl rfl)
  | restored _ hl =>
      obtain ⟨-, -, ⟨-, rfl⟩ | ⟨-, rfl⟩⟩ := LineInfo.restore_eq hl <;> exact .inl (hset rfl rfl)
  | agentObey _ _ hl => cases hl <;> exact .inl (hset rfl rfl)
  | evictClaim | evictDiscard | evictDrop | evictLock | claim | lineLock | lineUnlock | evictEnd =>
      exact .inl (hset rfl rfl)
  | _ => exact .inl ⟨rfl, rfl⟩

/-- Every line that is not empty has the tag of its address. -/
def Addressed (h : Host) : Prop :=
  ∀ r, h.status r ≠ .preserved → (h.lines r).tag = (h.lines r).addr.getTag

theorem Addressed.setLine {l : LineInfo} (ha : h.Addressed)
    (hl : l.status ≠ .preserved → l.tag = l.addr.getTag) : (h.setLine r l).Addressed := by
  intro x hx
  rw [status, setLine_lines] at hx
  rw [setLine_lines]
  rcases eq_or_ne x r with rfl | hne
  · rw [Function.update_self] at hx ⊢
    exact hl hx
  · rw [Function.update_of_ne hne] at hx ⊢
    exact ha x hx

theorem Addressed.step {a : HostAction} (ha : h.Addressed) (hs : Stepped h a h') (hh : h.Owned) :
    h'.Addressed := by
  have hkeep : (∀ τ ptr, a ≠ .insert τ ptr) → h'.Addressed := by
    intro hne r hr
    rcases hs.address r with ⟨haddr, htag⟩ | ⟨τ, ptr, he⟩
    · rw [haddr, htag]
      rcases hs.kept hh r with hk | ⟨τ, ptr, he, -⟩
      · exact ha r fun hp => hr (hk.empty hp)
      · exact absurd he (hne τ ptr)
    · exact absurd he (hne τ ptr)
  cases hs with
  | @insert τ ptr exist available eviction _ hpc hi =>
      cases hi with
      | none => exact ha
      | @fresh s d =>
          exact ha.setLine (r := ⟨false, (h.threads τ).set, s⟩)
            (l := filled (h.threads τ) (h.lines ⟨false, (h.threads τ).set, s⟩) d) fun _ => rfl
      | @reused s =>
          exact ha.setLine (r := ⟨false, (h.threads τ).set, s⟩) (l := { h.lines
            ⟨false, (h.threads τ).set, s⟩ with
              tag := (h.threads τ).tag, addr := (h.threads τ).addr }) fun _ => rfl
      | @moved s he hs =>
          have hst := ((hh.fits τ).eviction s (by rw [Thread.stake, hpc]; exact hs)).1
          have hline := ha ⟨false, (h.threads τ).set, s⟩ fun hp => by
            rw [hp] at hst
            cases hst
          refine Addressed.setLine (l := filled _ _ _) (Addressed.setLine ha fun _ => ?_) fun _ => rfl
          exact hline
  | _ => exact hkeep (by rintro _ _ ⟨⟩)

theorem addressed {apptNum : ℕ} {ds : List Addr} (hr : (host apptNum ds).Reachable h) :
    h.Addressed :=
  Host.invariant (fun _ hi r hne => absurd (hi.status r) hne)
    (fun _ _ _ hr ha hs => ha.step hs (owned hr)) hr

/-! ## Searches -/

/-- No line that an agent has ruled out holds the tag. -/
def Sought (h : Host) : Prop :=
  ∀ a r, (h.agents a).passed r → (h.lines r).holds (h.agents a).tag = false

/-- A line that is ruled out stays without the tag. -/
theorem Sought.kept {a : HostAction} (hso : h.Sought) (hs : Stepped h a h') (hl : h.SetsHeld)
    (hh : h.Owned) {i : AgentId} (hp : (h.agents i).passed r) :
    (h'.lines r).holds (h.agents i).tag = false := by
  rcases hs.kept hh r with hk | ⟨τ, ptr, -, hin, -⟩
  · exact hk.holds (hso i r hp)
  · exact absurd hin (hl.no_writer_agent (AgentPc.passed_inSet hp))

theorem Sought.step {a : HostAction} (hso : h.Sought) (hs : Stepped h a h') (ht : h.Tagged)
    (hl : h.SetsHeld) (hh : h.Owned) : h'.Sought := by
  -- the agent's own steps do not touch the lines before the search is over
  have hown : ∀ {i : AgentId} {p' : AgentPc} {k : Host}, k.lines = h.lines →
      k.agents = Function.update h.agents i p' →
      (∀ r, p'.passed r → (h.lines r).holds p'.tag = false) → k.Sought := by
    intro i p' k hlines hag hnew j r hp
    rw [hag] at hp ⊢
    rw [hlines]
    rcases eq_or_ne j i with rfl | hne
    · rw [Function.update_self] at hp ⊢
      exact hnew r hp
    · rw [Function.update_of_ne hne] at hp ⊢
      exact hso j r hp
  have hthread : h'.agents = h.agents → h'.Sought := by
    intro hag j r hp
    rw [hag] at hp ⊢
    exact hso.kept hs hl hh hp
  have hobey : ∀ {i : AgentId}, (h'.agents i).passed = (fun _ => False) →
      (∀ j, j ≠ i → h'.agents j = h.agents j) → h'.Sought := by
    intro i hi hag j r hp
    rcases eq_or_ne j i with rfl | hne
    · rw [hi] at hp
      exact hp.elim
    · rw [hag j hne] at hp ⊢
      exact hso.kept hs hl hh hp
  cases hs with
  | take | agentFault | agentUnlock => exact hown rfl rfl fun r hp => hp.elim
  | agentLock => exact hown rfl rfl fun r hp => absurd (List.mem_finRange _) hp.2.2
  | @agentSkip i m s todo hpc hn =>
      refine hown rfl rfl fun r hp => ?_
      obtain ⟨hset, hsh, hslot⟩ := hp
      obtain ⟨sh, set, slot⟩ := r
      obtain rfl : sh = false := hsh
      obtain rfl : set = calLineSet m.clineTag := hset
      rcases eq_or_ne slot s with rfl | hne
      · exact hn
      · have := hso i ⟨false, calLineSet m.clineTag, slot⟩ (by
          rw [hpc]
          exact ⟨rfl, rfl, fun hm => (List.mem_cons.mp hm).elim hne hslot⟩)
        rwa [hpc] at this
  | @agentFound i m todo line hpc hf =>
      refine hown rfl rfl fun r hp => ?_
      cases hf with
      | some => exact hp.elim
      | none =>
          obtain ⟨hset, hsh⟩ := hp
          have := hso i r (by
            rw [hpc]
            exact ⟨hset, hsh.resolve_right (not_not_intro (List.mem_finRange _)), List.not_mem_nil⟩)
          rwa [hpc] at this
  | @agentShadowSkip i m line s todo hpc hn =>
      refine hown rfl rfl fun r hp => ?_
      cases line with
      | some => exact hp.elim
      | none =>
          obtain ⟨hset, hor⟩ := hp
          obtain ⟨sh, set, slot⟩ := r
          obtain rfl : set = calLineSet m.clineTag := hset
          by_cases hs : sh = true ∧ slot = s
          · obtain ⟨rfl, rfl⟩ := hs
            exact hn
          · have := hso i ⟨sh, calLineSet m.clineTag, slot⟩ (by
              rw [hpc]
              refine ⟨rfl, ?_⟩
              cases sh with
              | false => exact .inl rfl
              | true =>
                  refine .inr fun hm => ?_
                  rcases List.mem_cons.mp hm with he | hm
                  · exact hs ⟨rfl, he⟩
                  · exact hor.resolve_left nofun hm)
            rwa [hpc] at this
  | @agentLooked i m line shadow todo hpc hf =>
      have hunique : ∀ {x r : LineRef}, (h.lines x).holds m.clineTag → r ≠ x →
          (h.lines r).holds m.clineTag = false := by
        intro x r hx hne
        rw [← Bool.not_eq_true]
        intro hr
        obtain ⟨hxs, hxt⟩ := holds_iff.mp hx
        obtain ⟨hrs, hrt⟩ := holds_iff.mp hr
        exact hne (ht.unique r x hrs hxs (hrt.trans hxt.symm))
      refine hown rfl rfl fun r hp => ?_
      cases line with
      | none =>
          cases hf with
          | none => exact hp.elim
          | some hs => exact hunique hs hp.2
      | some s =>
          cases shadow with
          | some => exact hp.elim
          | none =>
              have hc := ht.agent i ⟨false, calLineSet m.clineTag, s⟩ (by rw [hpc]; rfl)
              rw [hpc] at hc
              exact hunique (holds_iff.mpr ⟨hc.full rfl, hc.tag_eq⟩) hp.2
  | @agentObey i m x l hpc ho hl' =>
      refine hobey (i := i) ?_ fun j hne => Function.update_of_ne hne _ _
      rw [setAgent_agents, Function.update_self]
      rfl
  | insert hpc hi => cases hi <;> exact hthread rfl
  | _ => exact hthread rfl

theorem Sought.init {apptNum : ℕ} {ds : List Addr} (hi : Init apptNum ds h) : h.Sought := by
  intro a r hp
  rw [hi.agents a] at hp
  exact hp.elim

theorem sought {apptNum : ℕ} {ds : List Addr} (hr : (host apptNum ds).Reachable h) : h.Sought :=
  Host.invariant (fun _ hi => .init hi)
    (fun _ _ _ hr hso hs => hso.step hs (tagged hr) (setsHeld hr) (owned hr)) hr

end Host

end Ting
