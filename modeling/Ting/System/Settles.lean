/-
# `Ting.System.Settles` — how a line comes to permit an access

A thread finds a hit on a line that rests in `SHARED` or `MODIFIED`.  A line comes to permit an
access only at the end of a miss or an upgrade, or when a refused eviction is taken back
(`Settles`); every other step takes permissions away, or moves the line.
-/
import Ting.System.Tracks

namespace Ting

/-- What an agent does to a line permits no more than before. -/
theorem LineInfo.Obeyed.permits {t : RawMessageType} {l l' : LineInfo} {w : Bool}
    (ho : LineInfo.Obeyed t l l') (hp : l'.status.permits w) : l.status.permits w := by
  cases ho with
  | downgraded _ hs =>
      rw [hs]
      rfl
  | flagged | gone => exact hp
  | invalidated | taken | downgradedEvict => cases hp

namespace Host

variable {h h' : Host} {τ : ThreadId} {r : LineRef} {st : CacheStatus} {w : Bool}

/-- Thread `τ` is about to bring line `r` to rest in status `st`: the answer has come, and nobody
has set the flag. -/
inductive Settles (h : Host) (τ : ThreadId) : LineRef → CacheStatus → Prop
  | request {r : LineRef} {k : RawMessageType} {succ : Bool}
      (hpc : (h.threads τ).pc = .finish r k succ) (hf : (h.lines r).flag = false) :
      Settles h τ r (if succ then k.grantedStatus else k.deniedStatus)
  | eviction (hpc : (h.threads τ).pc = .evictRestore)
      (hf : (h.lines (h.threads τ).cur).flag = false) :
      Settles h τ (h.threads τ).cur
        (if (h.threads τ).curType = .evictDirty ∧ (h.lines (h.threads τ).cur).status = .toPreserved
          then .modified else .shared)

/-- A line that permits an access has permitted it before, in this slot or in another, or a thread
has just brought it to rest. -/
theorem Stepped.permits {a : HostAction} (hs : Stepped h a h') (hp : (h'.status r).permits w) :
    (∃ x, (h.status x).permits w ∧ h.address x = h'.address r) ∨
      ∃ τ st, a = .thread τ ∧ h.Settles τ r st ∧ st.permits w ∧ h'.address r = h.address r := by
  -- a step that changes one line
  have hset : ∀ {x : LineRef} {l : LineInfo}, h'.lines = Function.update h.lines x l →
      (l.status.permits w → (h.lines x).status.permits w ∧ (h.lines x).addr = l.addr) →
      ∃ x, (h.status x).permits w ∧ h.address x = h'.address r := by
    intro x l hl hw
    refine ⟨r, ?_⟩
    rw [Host.address, Host.address, hl]
    rw [status, hl] at hp
    rcases eq_or_ne r x with rfl | hne
    · rw [Function.update_self] at hp ⊢
      exact hw hp
    · rw [Function.update_of_ne hne] at hp ⊢
      exact ⟨hp, rfl⟩
  -- a thread that brings line `x` to rest
  have hend : ∀ {τ : ThreadId} {x : LineRef} {st : CacheStatus} {l : LineInfo},
      a = .thread τ → h'.lines = Function.update h.lines x l → l.addr = (h.lines x).addr →
      (l.status.permits w → h.Settles τ x st ∧ st.permits w) →
      (∃ x, (h.status x).permits w ∧ h.address x = h'.address r) ∨
        ∃ τ st, a = .thread τ ∧ h.Settles τ r st ∧ st.permits w ∧ h'.address r = h.address r := by
    intro τ x st l ha hl haddr hst
    rcases eq_or_ne r x with rfl | hne
    · have hr : h'.lines r = l := by rw [hl, Function.update_self]
      rw [status, hr] at hp
      obtain ⟨hsettle, hw⟩ := hst hp
      exact .inr ⟨τ, st, ha, hsettle, hw, by rw [Host.address, hr, haddr, Host.address]⟩
    · have hr : h'.lines r = h.lines r := by rw [hl, Function.update_of_ne hne]
      exact .inl ⟨r, by rwa [status, hr] at hp, by rw [Host.address, Host.address, hr]⟩
  cases hs with
  | @insert τ _ _ _ _ _ hpc hi =>
      left
      cases hi with
      | none => exact ⟨r, hp, rfl⟩
      | fresh => exact hset rfl fun hw => by cases hw
      | reused _ _ _ hi =>
          refine hset rfl fun hw => ?_
          rw [show LineInfo.status _ = _ from hi] at hw
          cases hw
      | @moved s =>
          rw [status, setThread_lines, setLine_lines, setLine_lines] at hp
          rw [Host.address, setThread_lines, setLine_lines, setLine_lines]
          rcases eq_or_ne r ⟨false, (h.threads τ).set, s⟩ with rfl | hne
          · rw [Function.update_self] at hp
            cases hp
          rw [Function.update_of_ne hne] at hp ⊢
          rcases eq_or_ne r ⟨true, (h.threads τ).set, s⟩ with rfl | hne'
          · rw [Function.update_self] at hp ⊢
            exact ⟨_, hp, rfl⟩
          · rw [Function.update_of_ne hne'] at hp ⊢
            exact ⟨r, hp, rfl⟩
  | @finish τ x k succ succ' l hpc hpub =>
      obtain ⟨-, ⟨-, rfl, -⟩ | ⟨hf, -, rfl⟩⟩ := LineInfo.publish_eq hpub
      · exact .inl (hset rfl fun hw => by cases hw)
      · exact hend rfl rfl rfl fun hw => ⟨.request hpc hf, hw⟩
  | @restored τ l hpc hl =>
      obtain ⟨-, -, ⟨-, rfl⟩ | ⟨hf, rfl⟩⟩ := LineInfo.restore_eq hl
      · exact .inl (hset rfl fun hw => by cases hw)
      · exact hend rfl rfl rfl fun hw => ⟨.eviction hpc hf, hw⟩
  | agentObey hpc ho hl =>
      exact .inl (hset rfl fun hw => ⟨hl.permits hw, by cases hl <;> rfl⟩)
  | @claim τ r' k =>
      refine .inl (hset rfl fun hw => ?_)
      rcases k.toStatus_eq with hk | hk <;> rw [LineInfo.setFlagAndStatus, hk] at hw <;> cases hw
  | evictClaim | evictDrop => exact .inl (hset rfl fun hw => by cases hw)
  | evictDiscard | evictLock | lineLock | lineUnlock | evictEnd =>
      exact .inl (hset rfl fun hw => ⟨hw, rfl⟩)
  | _ => exact .inl ⟨r, hp, rfl⟩

end Host

end Ting
