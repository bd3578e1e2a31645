/-
# `Ting.Soft.Owned` — no two threads have a stake in one line

`Owned` says that every thread's stake fits the statuses of the lines, and that the stakes are
disjoint.  A thread changes only the lines that it owns and, with the lock of its set in hand,
lines that nobody can own: empty slots, and lines of the set that rest.
-/
import Ting.Soft.Stakes

namespace Ting

namespace Stake

variable {k k' : Stake} {i j : SetIndex} {st st' : LineRef → CacheStatus} {r : LineRef}

/-- `k'` is what is left of `k`. -/
structure Sub (k' k : Stake) : Prop where
  claim : ∀ x, k'.claim = some x → k.claim = some x
  target : ∀ r, k'.target = some r → k.target = some r
  next : ∀ r, k'.next = some r → k.next = some r
  cur : ∀ x, k'.cur = some x → k.cur = some x
  available : ∀ s, k'.slots.1 = some s → k.slots.1 = some s
  eviction : ∀ s, k'.slots.2 = some s → k.slots.2 = some s

theorem Sub.refl (k : Stake) : k.Sub k :=
  ⟨fun _ => id, fun _ => id, fun _ => id, fun _ => id, fun _ => id, fun _ => id⟩

theorem Sub.of_eq (h : k' = k) : k'.Sub k :=
  h ▸ .refl _

theorem Sub.owns (hs : k'.Sub k) (ho : k'.Owns r) : k.Owns r := by
  rcases ho with ⟨s, h⟩ | h | ⟨p, h⟩
  · exact .inl ⟨s, hs.claim _ h⟩
  · exact .inr (.inl (hs.next _ h))
  · exact .inr (.inr ⟨p, hs.cur _ h⟩)

theorem Fits.mono (hf : k.Fits i st) (hs : k'.Sub k) : k'.Fits i st where
  claim r s h := hf.claim r s (hs.claim _ h)
  target r h := hf.target r (hs.target _ h)
  next r h := hf.next r (hs.next _ h)
  cur r p h := hf.cur r p (hs.cur _ h)
  apart r p h h' := hf.apart r p (hs.cur _ h) (hs.next _ h')
  available s h := hf.available s (hs.available _ h)
  eviction s h := hf.eviction s (hs.eviction _ h)

/-- The set matters only to a thread that looks into it. -/
theorem Fits.elsewhere (hf : k.Fits i st) (ht : k.target = none) (hs : k.slots = (none, none)) :
    k.Fits j st where
  claim := hf.claim
  target r h := by rw [ht] at h; cases h
  next := hf.next
  cur := hf.cur
  apart := hf.apart
  available s h := by rw [hs] at h; cases h
  eviction s h := by rw [hs] at h; cases h

end Stake

namespace Host

/-- The statuses of the lines. -/
def status (h : Host) (r : LineRef) : CacheStatus :=
  (h.lines r).status

/-- Every thread has what its stake says, and no two have the same. -/
structure Owned (h : Host) : Prop where
  fits : ∀ τ, (h.threads τ).stake.Fits (h.threads τ).set h.status
  apart : ∀ σ τ, σ ≠ τ → ∀ r, (h.threads σ).stake.Owns r → ¬ (h.threads τ).stake.Owns r

/-- A line that nobody can own: an empty slot, or a line of the set that rests. -/
def Loose (h : Host) (r : LineRef) : Prop :=
  h.status r = .preserved ∨ r.shadow = false ∧ (h.status r).isStable

variable {h h' : Host} {τ : ThreadId} {t' : Thread} {r : LineRef}

theorem Owned.not_loose (hh : h.Owned) (ho : (h.threads τ).stake.Owns r) : ¬ h.Loose r := by
  rintro (hp | ⟨hr, hs⟩)
  · exact (hh.fits τ).not_preserved ho hp
  · rw [(hh.fits τ).not_stable ho hr] at hs
    cases hs

/-- A step of a thread: it changes lines that it owns, and loose lines of a set whose lock it
holds. -/
theorem Owned.thread (hh : h.Owned) (hl : h.SetsHeld)
    (hth : h'.threads = Function.update h.threads τ t')
    (hch : ∀ r, h'.status r = h.status r ∨ (h.threads τ).stake.Owns r ∨
      h.Loose r ∧ ∃ w, (h.threads τ).inSet w r.set)
    (howns : ∀ r, t'.stake.Owns r → (h.threads τ).stake.Owns r ∨ h.Loose r)
    (hfits : t'.stake.Fits t'.set h'.status) : h'.Owned where
  fits σ := by
    rw [hth]
    rcases eq_or_ne σ τ with rfl | hne
    · rw [Function.update_self]
      exact hfits
    rw [Function.update_of_ne hne]
    refine (hh.fits σ).frame (fun r ho => ?_) fun hs r hr => ?_
    · rcases hch r with he | ho' | ⟨hloose, -⟩
      · rw [he]
        exact .refl _
      · exact absurd ho' (hh.apart σ τ hne r ho)
      · exact absurd hloose (hh.not_loose ho)
    · rcases hch r with he | ho | ⟨-, w, hin⟩
      · rw [he]
        exact ⟨id, fun _ => id⟩
      · refine ⟨fun hp => absurd hp ((hh.fits τ).not_preserved ho), fun hsh hst => ?_⟩
        rw [(hh.fits τ).not_stable ho hsh] at hst
        cases hst
      · -- a thread that has found slots holds the write lock of its set
        refine absurd (hl.no_writer hne.symm hin) (not_not_intro ⟨?_, hr.symm⟩)
        exact Classical.not_not.mp fun hno => hs (Pc.slots_eq hno)
  apart := by
    have hnew : ∀ σ, σ ≠ τ → ∀ r, t'.stake.Owns r → ¬ (h.threads σ).stake.Owns r := by
      intro σ hne r ho hσ
      rcases howns r ho with ho | hloose
      · exact hh.apart σ τ hne r hσ ho
      · exact hh.not_loose hσ hloose
    intro σ σ' hne r hσ hσ'
    rw [hth] at hσ hσ'
    rcases eq_or_ne σ τ with rfl | hστ
    · rw [Function.update_self] at hσ
      rw [Function.update_of_ne hne.symm] at hσ'
      exact hnew σ' hne.symm r hσ hσ'
    · rw [Function.update_of_ne hστ] at hσ
      rcases eq_or_ne σ' τ with rfl | hστ'
      · rw [Function.update_self] at hσ'
        exact hnew σ hne r hσ' hσ
      · rw [Function.update_of_ne hστ'] at hσ'
        exact hh.apart σ σ' hne r hσ hσ'

/-- A step that leaves all statuses as they are, and the thread with no more than it had. -/
theorem Owned.still (hh : h.Owned) (hl : h.SetsHeld)
    (hth : h'.threads = Function.update h.threads τ t') (hst : h'.status = h.status)
    (hset : t'.set = (h.threads τ).set) (hsub : t'.stake.Sub (h.threads τ).stake) : h'.Owned :=
  hh.thread hl hth (fun r => .inl (by rw [hst])) (fun r ho => .inl (hsub.owns ho))
    (by rw [hset, hst]; exact (hh.fits τ).mono hsub)

/-- A step that changes the status of one line, which the thread owns and then gives up. -/
theorem Owned.release (hh : h.Owned) (hl : h.SetsHeld)
    (hth : h'.threads = Function.update h.threads τ t')
    (hst : ∀ x, x ≠ r → h'.status x = h.status x) (ho : (h.threads τ).stake.Owns r)
    (hset : t'.set = (h.threads τ).set) (hsub : t'.stake.Sub (h.threads τ).stake)
    (hno : ¬ t'.stake.Owns r) (hslots : t'.stake.slots = (none, none)) : h'.Owned := by
  refine hh.thread hl hth (fun x => ?_) (fun x hx => .inl (hsub.owns hx)) ?_
  · rcases eq_or_ne x r with rfl | hne
    · exact .inr (.inl ho)
    · exact .inl (hst x hne)
  · rw [hset]
    refine ((hh.fits τ).mono hsub).frame (fun x hx => ?_) fun hs => absurd hslots hs
    rw [hst x fun he => hno (he ▸ hx)]
    exact .refl _

/-- A step that takes the thread's eviction of line `c` further. -/
theorem Owned.evict {c : LineRef} {p : EvictPhase} (hh : h.Owned) (p' : EvictPhase) (hl : h.SetsHeld)
    (hth : h'.threads = Function.update h.threads τ t')
    (hst : ∀ x, x ≠ c → h'.status x = h.status x)
    (hcur : (h.threads τ).stake.cur = some (c, p))
    (hk : t'.stake = { (h.threads τ).stake with cur := some (c, p') } ∨
      t'.stake = { (h.threads τ).stake with next := none, cur := some (c, p') })
    (hset : t'.set = (h.threads τ).set) (hslots : (h.threads τ).stake.slots = (none, none))
    (hfit : p'.fits (h'.status c)) : h'.Owned := by
  have hown : (h.threads τ).stake.Owns c := .inr (.inr ⟨p, hcur⟩)
  have hf := hh.fits τ
  -- what the thread has in hand besides the line
  have hrest : ({ (h.threads τ).stake with cur := none } : Stake).Fits t'.set h'.status := by
    rw [hset]
    have hless : ({ (h.threads τ).stake with cur := none } : Stake).Sub (h.threads τ).stake :=
      ⟨fun _ => id, fun _ => id, fun _ => id, fun _ => nofun, fun _ => id, fun _ => id⟩
    refine (hf.mono hless).frame (fun x hx => ?_) fun hs => absurd hslots hs
    have hne : x ≠ c := by
      rintro rfl
      rcases hx with ⟨s, hs⟩ | hn | ⟨_, hp⟩
      · have := (hf.claim x s hs).1
        rw [(hf.cur x p hcur).1] at this
        cases this
      · exact hf.apart x p hcur hn
      · cases hp
    rw [hst x hne]
    exact .refl _
  have hnew : ({ (h.threads τ).stake with cur := some (c, p') } : Stake).Fits t'.set h'.status :=
    { hrest with
      cur := by
        rintro r q ⟨⟩
        exact ⟨(hf.cur c p hcur).1, hfit⟩
      apart := by
        rintro r q ⟨⟩
        exact hf.apart c p hcur }
  have hsub : t'.stake.Sub { (h.threads τ).stake with cur := some (c, p') } := by
    rcases hk with hk | hk <;> rw [hk]
    · exact .refl _
    · exact ⟨fun _ => id, fun _ => id, fun _ => nofun, fun _ => id, fun _ => id, fun _ => id⟩
  refine hh.thread hl hth (fun x => ?_) (fun x hx => .inl ?_) (hnew.mono hsub)
  · rcases eq_or_ne x c with rfl | hne
    · exact .inr (.inl hown)
    · exact .inl (hst x hne)
  · rcases hsub.owns hx with hc | hn | ⟨q, hq⟩
    · exact .inl hc
    · exact .inr (.inl hn)
    · cases hq
      exact hown

/-- An insertion: it changes loose lines of the set, and the thread may get one to evict. -/
theorem Owned.insert (hh : h.Owned) (hl : h.SetsHeld)
    (hth : h'.threads = Function.update h.threads τ t')
    (hin : (h.threads τ).inSet true (h.threads τ).set)
    (hch : ∀ x, h'.status x = h.status x ∨ h.Loose x ∧ x.set = (h.threads τ).set)
    (hk : t'.stake = ⟨none, none, t'.stake.next, (h.threads τ).stake.cur, none, none⟩)
    (hnext : ∀ x, t'.stake.next = some x → (h.threads τ).stake.next = some x ∨
      h.status x = .preserved ∧ x.shadow ∧ (h'.status x).isStable) : h'.Owned := by
  have hf := hh.fits τ
  have howned : ∀ x, (h.threads τ).stake.Owns x → h'.status x = h.status x := fun x ho =>
    (hch x).resolve_right fun hx => hh.not_loose ho hx.1
  refine hh.thread hl hth (fun x => ?_) (fun x hx => ?_) ?_
  · rcases hch x with hx | ⟨hx, hset⟩
    · exact .inl hx
    · exact .inr (.inr ⟨hx, true, hset ▸ hin⟩)
  · rw [hk] at hx
    rcases hx with ⟨s, hc⟩ | hn | hc
    · cases hc
    · rcases hnext x hn with hn | ⟨hp, -⟩
      · exact .inl (.inr (.inl hn))
      · exact .inr (.inl hp)
    · exact .inl (.inr (.inr hc))
  · rw [hk]
    exact
      { claim := fun _ _ => nofun
        target := fun _ => nofun
        next := fun x hx => by
          rcases hnext x hx with hn | ⟨-, hx⟩
          · rw [howned x (.inr (.inl hn))]
            exact hf.next x hn
          · exact hx
        cur := fun x p hx => by
          rw [howned x (.inr (.inr ⟨p, hx⟩))]
          exact hf.cur x p hx
        apart := fun x p hx hx' => by
          rcases hnext x hx' with hn | ⟨hp, -⟩
          · exact hf.apart x p hx hn
          · exact hh.not_loose (.inr (.inr ⟨p, hx⟩)) (.inl hp)
        available := fun _ => nofun
        eviction := fun _ => nofun }

/-- What an agent does to a line harms no stake. -/
theorem Owned.agent (hh : h.Owned) (hth : h'.threads = h.threads)
    (hst : ∀ r, (h.status r).Keeps (h'.status r)) : h'.Owned where
  fits τ := by
    rw [hth]
    exact (hh.fits τ).frame (fun r _ => hst r) fun _ r _ =>
      ⟨(hst r).preserved, fun _ => (hst r).stable⟩
  apart := by
    rw [hth]
    exact hh.apart

/-! ## Steps -/

theorem status_setLine_of_ne {l : LineInfo} {x : LineRef} (hne : x ≠ r) :
    (h.setLine r l).status x = h.status x := by
  simp only [status, setLine_lines, Function.update_of_ne hne]

theorem status_setLine_self {l : LineInfo} : (h.setLine r l).status r = l.status := by
  simp only [status, setLine_lines, Function.update_self]

theorem status_setLine {l : LineInfo} (hs : l.status = h.status r) :
    (h.setLine r l).status = h.status := by
  funext x
  rcases eq_or_ne x r with rfl | hne
  · exact status_setLine_self.trans hs
  · exact status_setLine_of_ne hne

/-- An insertion writes only loose lines of the set that its thread has locked. -/
theorem Inserted.lines {ptr : Addr} {exist : Bool} {available eviction : Option Slot}
    (hi : Inserted h τ ptr exist available eviction h') (hh : h.Owned)
    (hpc : (h.threads τ).pc = .scan [] exist available eviction) (r : LineRef) :
    h'.lines r = h.lines r ∨ (h.threads τ).inSet true r.set ∧ h.Loose r := by
  have hin : (h.threads τ).inSet true (h.threads τ).set := ⟨by rw [hpc]; rfl, rfl⟩
  have hslots : (h.threads τ).stake.slots = (available, eviction) := by
    rw [Thread.stake, hpc]
    rfl
  have hf := hh.fits τ
  cases hi with
  | none => exact .inl rfl
  | @fresh s _ _ _ hs =>
      rcases eq_or_ne r ⟨false, (h.threads τ).set, s⟩ with rfl | hne
      · exact .inr ⟨hin, .inl (hf.available s (by rw [hslots]; exact hs))⟩
      · exact .inl (Function.update_of_ne hne _ _)
  | @reused s _ hs =>
      rcases eq_or_ne r ⟨false, (h.threads τ).set, s⟩ with rfl | hne
      · exact .inr ⟨hin, .inr ⟨rfl, (hf.eviction s (by rw [hslots]; exact hs)).1⟩⟩
      · exact .inl (Function.update_of_ne hne _ _)
  | @moved s _ hs =>
      obtain ⟨hst, hp⟩ := hf.eviction s (by rw [hslots]; exact hs)
      rcases eq_or_ne r ⟨false, (h.threads τ).set, s⟩ with rfl | hne
      · exact .inr ⟨hin, .inr ⟨rfl, hst⟩⟩
      rcases eq_or_ne r ⟨true, (h.threads τ).set, s⟩ with rfl | hne'
      · exact .inr ⟨hin, .inl hp⟩
      · exact .inl ((Function.update_of_ne hne _ _).trans (Function.update_of_ne hne' _ _))

theorem Owned.init {apptNum : ℕ} {ds : List Addr} (hi : Init apptNum ds h) : h.Owned := by
  have hstake : ∀ τ, (h.threads τ).stake = ⟨none, none, none, none, none, none⟩ := by
    intro τ
    rw [Thread.stake, hi.pc τ, hi.startNext τ, hi.waitCur τ]
    rfl
  constructor
  · intro τ
    rw [hstake τ]
    constructor <;> intros <;> contradiction
  · intro σ τ _ r ho
    rw [hstake σ] at ho
    rcases ho with ⟨_, h⟩ | h | ⟨_, h⟩ <;> cases h

theorem Owned.step {a : HostAction} (hh : h.Owned) (hl : h.SetsHeld) (hw : h.WaitsWell)
    (hs : Stepped h a h') : h'.Owned := by
  have hstill : ∀ {τ : ThreadId} {t' : Thread} {k : Host},
      k.threads = Function.update h.threads τ t' → k.status = h.status →
      t'.set = (h.threads τ).set → t'.stake = (h.threads τ).stake → k.Owned := by
    intro τ t' k hth hst hset hk
    exact hh.still hl hth hst hset (.of_eq hk)
  have hanswer : ∀ {τ : ThreadId} {k : Host} {x : Option CtrlMsg} {tag : BitVec 64} {m : CtrlMsg},
      k.threads = Function.update h.threads τ
        (({ h.threads τ with stash := x } : Thread).onEvictReply tag m) →
      k.status = h.status → (h.threads τ).pc = .waitEvict → k.Owned := by
    intro τ k x tag m hth hst hpc
    have hwait := hw τ true (by rw [hpc]; rfl)
    have hcur : (h.threads τ).stake.cur = some ((h.threads τ).cur, .waiting) := by
      rw [Thread.stake, hpc]
      rfl
    obtain ⟨pc, ht, hp⟩ := onEvictReply_cases { h.threads τ with stash := x } tag m
    rw [ht] at hth
    rcases hp with rfl | rfl | rfl | rfl
    · exact hh.evict .ending hl hth (fun r _ => by rw [hst]) hcur
        (.inl (by rw [Thread.stake, Thread.stake, hpc]; rfl)) rfl (by rw [Thread.stake, hpc]; rfl)
        (by rw [hst]; exact EvictPhase.fits_ending ((hh.fits τ).cur _ _ hcur).2)
    all_goals
      refine hstill hth hst rfl ?_
      simp only [Thread.stake, hpc, Pc.claim, Pc.target, Pc.phase, Pc.slots, hwait, if_true]
  cases hs with
  | noEvict hpc | lockSet hpc | findSkip hpc | found hpc | shadowSkip hpc | lockSetW hpc
  | unlockSetW hpc | checked hpc | unchecked hpc | copy hpc | copied hpc | request hpc
  | spun hpc =>
      exact hstill rfl rfl rfl (by rw [Thread.stake, Thread.stake, hpc]; rfl)
  | evictDiscard hpc | evictLock hpc | lineLock hpc | lineUnlock hpc =>
      exact hstill rfl (status_setLine rfl) rfl (by rw [Thread.stake, Thread.stake, hpc]; rfl)
  | @call τ drain write addr hpc =>
      have hk : ∀ pc : Pc, pc = .waitEvict ∧ (h.threads τ).waitCur ∨ pc = .idle ∨
          pc = .startEvict → ({ h.threads τ with
            addr := addr, write := write, drain := drain, succ := false, pc := pc } : Thread).stake
            = (h.threads τ).stake := by
        rintro pc (⟨rfl, hw⟩ | rfl | rfl)
        · simp only [Thread.stake, hpc, Pc.claim, Pc.target, Pc.phase, Pc.slots, hw, if_true]
        · simp only [Thread.stake, hpc]
        · simp only [Thread.stake, hpc]
          rfl
      have hk' := hk (if drain then (if (h.threads τ).waitCur then .waitEvict else .idle)
        else .startEvict) (by
          split
          · split
            next hw => exact .inl ⟨rfl, hw⟩
            next => exact .inr (.inl rfl)
          · exact .inr (.inr rfl))
      refine hh.thread hl rfl (fun r => .inl rfl) (fun r ho => .inl (hk' ▸ ho)) ?_
      rw [hk']
      exact (hh.fits τ).elsewhere (by rw [Thread.stake, hpc]; rfl) (by rw [Thread.stake, hpc]; rfl)
  | @beginEvict τ hpc hn =>
      have hk : (h.threads τ).stake.next = some (h.threads τ).next := by
        rw [Thread.stake, hn]
        rfl
      have hf := hh.fits τ
      refine hh.thread hl rfl (fun r => .inl rfl) (fun r ho => .inl (.inr (.inl ?_))) ?_
      · rcases ho with ⟨_, hc⟩ | hc | ⟨_, hc⟩ <;> cases hc
        exact hk
      · constructor
        case cur => rintro r p ⟨⟩; exact hf.next _ hk
        case apart => rintro r p ⟨⟩ hc; cases hc
        all_goals (intro _; intros; contradiction)
  | @evictInvalid τ w hpc hs =>
      exact hh.evict .ending hl rfl (fun _ _ => rfl) (by rw [Thread.stake, hpc]; rfl)
        (.inl (by rw [Thread.stake, Thread.stake, hpc]; rfl)) rfl
        (by rw [Thread.stake, hpc]; rfl) (by simp [EvictPhase.fits, status, hs])
  | @evictClaim τ w hpc hs =>
      exact hh.evict .waiting hl rfl (fun x hne => status_setLine_of_ne hne)
        (by rw [Thread.stake, hpc]; rfl) (.inl (by rw [Thread.stake, Thread.stake, hpc]; rfl)) rfl
        (by rw [Thread.stake, hpc]; rfl) (by
          rw [show ∀ k : Host, (k.setThread τ _).status = k.status from fun _ => rfl,
            status_setLine_self]; rfl)
  | @evictDrop τ w hpc =>
      have hcur : (h.threads τ).stake.cur = some ((h.threads τ).cur, .ending) := by
        rw [Thread.stake, hpc]
        rfl
      have hk : ({ h.threads τ with pc := if w then .evictEnd else .lockSet } : Thread).stake
          = { (h.threads τ).stake with cur := none } := by
        cases w with
        | true => rw [Thread.stake, Thread.stake, hpc]; rfl
        | false =>
            have hwait := hw τ false (by rw [hpc]; rfl)
            rw [Thread.stake, Thread.stake, hpc]
            simp [hwait, Pc.phase, Pc.claim, Pc.target, Pc.slots]
      refine hh.release hl rfl (fun x hne => status_setLine_of_ne hne) (.inr (.inr ⟨_, hcur⟩)) rfl
        ?_ ?_ ?_ <;> rw [hk]
      · exact ⟨fun _ => id, fun _ => id, fun _ => id, fun _ => by rintro ⟨⟩, fun _ => id, fun _ => id⟩
      · rintro (⟨s, hs⟩ | hn | ⟨_, hp⟩)
        · rw [Thread.stake, hpc] at hs
          cases hs
        · exact (hh.fits τ).apart _ _ hcur hn
        · cases hp
      · rw [Thread.stake, hpc]
        rfl
  | @evictSend τ w _ hpc =>
      have hwait := hw τ true (by rw [hpc]; rfl)
      refine hstill rfl rfl rfl ?_
      rw [Thread.stake, Thread.stake, hpc]
      cases w with
      | true => rfl
      | false => simp [hwait, Pc.phase, Pc.claim, Pc.target, Pc.slots]
  | @looked τ line shadow todo hpc hf =>
      rcases afterLookup_cases h (h.threads τ) line shadow with ⟨k, hk, hcases⟩ | ⟨s, -, -, hk⟩
      · refine hstill rfl rfl rfl ?_
        rw [Thread.stake, Thread.stake, hpc]
        dsimp only
        rw [hk]
        rcases hcases with rfl | rfl | ⟨rfl, -⟩ | ⟨_, _, rfl⟩ <;> rfl
      · have hk' : ({ h.threads τ with
            dontWait := false, pc := h.afterLookup (h.threads τ) line shadow } : Thread).stake
            = { (h.threads τ).stake with target := some ⟨false, (h.threads τ).set, s⟩ } := by
          rw [Thread.stake, Thread.stake, hpc]
          dsimp only
          rw [hk]
          rfl
        refine hh.thread hl rfl (fun r => .inl rfl) (fun r ho => .inl ?_) ?_
        · rw [hk'] at ho
          exact ho
        · rw [hk']
          exact { hh.fits τ with
            target := by
              rintro r ⟨⟩
              exact ⟨rfl, rfl⟩ }
  | @claim τ r k hpc hf hs =>
      have htarget : (h.threads τ).stake.target = some r := by
        rcases hpc with ⟨hpc, _⟩ | ⟨hpc, _⟩ <;> rw [Thread.stake, hpc] <;> rfl
      have hin : (h.threads τ).inSet false (h.threads τ).set := by
        rcases hpc with ⟨hpc, _⟩ | ⟨hpc, _⟩ <;> exact ⟨by rw [hpc]; rfl, rfl⟩
      have hk : ({ h.threads τ with pc := .unlock (.request r k) } : Thread).stake
          = { (h.threads τ).stake with claim := some (r, k.toStatus), target := none } := by
        rcases hpc with ⟨hpc, _⟩ | ⟨hpc, _⟩ <;> rw [Thread.stake, Thread.stake, hpc] <;> rfl
      obtain ⟨hshadow, hset⟩ := (hh.fits τ).target r htarget
      have hloose : h.Loose r := by
        refine .inr ⟨hshadow, ?_⟩
        rw [status, hs]
        split <;> rfl
      have hne : ∀ x : LineRef, x.shadow → x ≠ r := by
        rintro x hx rfl
        rw [hshadow] at hx
        cases hx
      have hst : ∀ x, x ≠ r → (h.setLine r ((h.lines r).setFlagAndStatus false k.toStatus)).status x
          = h.status x := fun x hx => status_setLine_of_ne hx
      refine hh.thread hl rfl (fun x => ?_) (fun x hx => ?_) ?_
      · rcases eq_or_ne x r with rfl | hx
        · exact .inr (.inr ⟨hloose, false, hset ▸ hin⟩)
        · exact .inl (hst x hx)
      · rw [hk] at hx
        rcases hx with ⟨s, hc⟩ | hn | hc
        · cases hc
          exact .inr hloose
        · exact .inl (.inr (.inl hn))
        · exact .inl (.inr (.inr hc))
      · rw [hk]
        have hf := hh.fits τ
        exact
          { claim := by
              rintro x s ⟨⟩
              exact ⟨hshadow, status_setLine_self, k.toStatus_eq⟩
            target := fun _ => by rintro ⟨⟩
            next := fun x hx => ⟨(hf.next x hx).1, by
              have := (hf.next x hx).2
              rwa [← hst x (hne x (hf.next x hx).1)] at this⟩
            cur := fun x p hx => ⟨(hf.cur x p hx).1, by
              have := (hf.cur x p hx).2
              rwa [← hst x (hne x (hf.cur x p hx).1)] at this⟩
            apart := hf.apart
            available := by
              rcases hpc with ⟨hpc, _⟩ | ⟨hpc, _⟩ <;>
                exact fun s hs => by rw [Thread.stake, hpc] at hs; cases hs
            eviction := by
              rcases hpc with ⟨hpc, _⟩ | ⟨hpc, _⟩ <;>
                exact fun s hs => by rw [Thread.stake, hpc] at hs; cases hs }
  | @casFail τ r pc hpc =>
      refine hh.still hl rfl rfl rfl ?_
      rcases hpc with ⟨hpc, ⟨rfl, _⟩ | rfl⟩ | ⟨hpc, rfl⟩
      · exact .of_eq (by rw [Thread.stake, Thread.stake, hpc]; rfl)
      all_goals
        rw [Thread.stake, Thread.stake, hpc]
        exact ⟨fun _ => id, fun _ => by rintro ⟨⟩, fun _ => id, fun _ => id, fun _ => id, fun _ => id⟩
  | @unlock τ k hpc =>
      refine hstill rfl rfl rfl ?_
      rw [Thread.stake, Thread.stake, hpc]
      cases k <;> rfl
  | @scan τ s todo exist available eviction hpc =>
      obtain ⟨exist', available', eviction', hpc', -, hav, hev⟩ := scanSlot_cases h
        (h.threads τ) s todo exist available
        eviction
      have hslots : (h.threads τ).stake.slots = (available, eviction) := by
        rw [Thread.stake, hpc]
        rfl
      have hk : ({ h.threads τ with pc := h.scanSlot (h.threads τ) s todo exist available eviction }
          : Thread).stake = { (h.threads τ).stake with slots := (available', eviction') } := by
        rw [hpc', Thread.stake, Thread.stake, hpc]
        rfl
      refine hh.thread hl rfl (fun r => .inl rfl) (fun r ho => .inl ?_) ?_
      · rw [hk] at ho
        exact ho
      · rw [hk]
        have hf := hh.fits τ
        exact { hf with
          available := by
            rintro x rfl
            rcases hav with hx | ⟨hx, hp⟩
            · exact hf.available x (by rw [hslots]; exact hx.symm)
            · cases hx
              exact hp
          eviction := by
            rintro x rfl
            rcases hev with hx | ⟨hx, hp⟩
            · exact hf.eviction x (by rw [hslots]; exact hx.symm)
            · cases hx
              exact hp }
  | @reply τ r kind hasData granted m hpc =>
      rcases onReply_cases (h.threads τ) r kind hasData
        granted (h.lines (h.threads τ).cur).tag m with
        ⟨pc, ht, hp⟩ | ⟨ht, -⟩
      · refine hh.still hl rfl rfl (by rw [ht]; rfl) ?_
        rw [ht, Thread.stake, Thread.stake, hpc]
        have hdrop : ∀ p : Pc, p = .swallow ∨ p = .fault → Stake.Sub
            ⟨p.claim, p.target, if (h.threads τ).startNext then some (h.threads τ).next else none,
              (p.phase (h.threads τ).waitCur).map fun q => ((h.threads τ).cur, q), p.slots⟩
            ⟨(Pc.await r kind hasData granted).claim, (Pc.await r kind hasData granted).target,
              if (h.threads τ).startNext then some (h.threads τ).next else none,
              ((Pc.await r kind hasData granted).phase (h.threads τ).waitCur).map
                fun q => ((h.threads τ).cur, q), (Pc.await r kind hasData granted).slots⟩ := by
          rintro p (rfl | rfl) <;>
            exact ⟨fun _ => by rintro ⟨⟩, fun _ => id, fun _ => id, fun _ => id, fun _ => id, fun _ => id⟩
        rcases hp with rfl | rfl
        · rcases replySwitch_cases r kind hasData granted m.mtype with
            hr | hr | ⟨k, hk, ⟨_, hr⟩ | hr | ⟨_, _, hr⟩⟩
          · exact hdrop _ (.inl hr)
          · exact hdrop _ (.inr hr)
          all_goals
            refine .of_eq ?_
            simp only [hr, Pc.claim, hk]
            rfl
        · exact hdrop _ (.inl rfl)
      · exact hstill rfl rfl (by rw [ht]; rfl) (by rw [ht]; rfl)
  | @finish τ r kind succ succ' l hpc hp =>
      have hclaim : (h.threads τ).stake.claim = some (r, kind.toStatus) := by
        rw [Thread.stake, hpc]
        rfl
      have hf := hh.fits τ
      have hk : ({ h.threads τ with
          succ := succ', pc := if succ' then .lineLock r false else .bodyEnd } : Thread).stake
          = { (h.threads τ).stake with claim := none } := by
        rw [Thread.stake, Thread.stake, hpc]
        cases succ' <;> rfl
      refine hh.release hl rfl (fun x hne => status_setLine_of_ne hne) (.inl ⟨_, hclaim⟩) rfl
        ?_ ?_ ?_ <;> rw [hk]
      · exact ⟨fun _ => by rintro ⟨⟩, fun _ => id, fun _ => id, fun _ => id, fun _ => id, fun _ => id⟩
      · have hr := (hf.claim _ _ hclaim).1
        rintro (⟨s, hs⟩ | hn | ⟨p, hc⟩)
        · cases hs
        · rw [(hf.next _ hn).1] at hr
          cases hr
        · rw [(hf.cur _ _ hc).1] at hr
          cases hr
      · rw [Thread.stake, hpc]
        rfl
  | @bodyEnd τ hpc =>
      refine hstill rfl rfl rfl ?_
      rw [Thread.stake, Thread.stake, hpc]
      dsimp only
      split
      next hc =>
        obtain ⟨-, hwait⟩ := Bool.and_eq_true_iff.mp hc
        simp only [Pc.claim, Pc.target, Pc.phase, Pc.slots, hwait, if_true]
      next => rcases loop_cases (t := h.threads τ) with ht | ht <;> rw [ht] <;> rfl
  | unstash hpc | evictReply hpc => exact hanswer rfl rfl hpc
  | @restored τ l hpc hr =>
      obtain ⟨-, -, hl'⟩ := LineInfo.restore_eq hr
      refine hh.evict .trying hl rfl (fun x hne => status_setLine_of_ne hne)
        (by rw [Thread.stake, hpc]; rfl) (.inr (by rw [Thread.stake, Thread.stake, hpc]; rfl)) rfl
        (by rw [Thread.stake, hpc]; rfl) ?_
      rw [show ∀ k : Host, (k.setThread τ (h.threads τ).retryEvict).status = k.status from
        fun _ => rfl, status_setLine_self]
      rcases hl' with ⟨_, rfl, -⟩ | ⟨_, rfl⟩
      · rfl
      · dsimp only [LineInfo.setFlagAndStatus]
        split <;> rfl
  | @evictSpun τ hpc hf =>
      have hcur : (h.threads τ).stake.cur = some ((h.threads τ).cur, .waiting) := by
        rw [Thread.stake, hpc]
        rfl
      refine hh.evict .ending hl rfl (fun _ _ => rfl) hcur
        (.inl (by rw [Thread.stake, Thread.stake, hpc]; rfl)) rfl (by rw [Thread.stake, hpc]; rfl)
        (EvictPhase.fits_ending ((hh.fits τ).cur _ _ hcur).2)
  | @evictEnd τ hpc =>
      refine hstill rfl (status_setLine rfl) rfl ?_
      rw [Thread.stake, Thread.stake, hpc]
      rcases loop_cases (t := h.threads τ) with ht | ht <;> rw [ht] <;> rfl
  | swallow => exact hh
  | take | agentLock | agentSkip | agentFound | agentShadowSkip | agentLooked | agentFault
  | agentUnlock => exact hh.agent rfl fun r => .refl _
  | @agentObey a m r l hpc ho hobey =>
      refine hh.agent rfl fun x => ?_
      rcases eq_or_ne x r with rfl | hne
      · rw [show ∀ k : Host, (k.setAgent a (.unlock m)).status = k.status from fun _ => rfl,
          status_setLine_self]
        exact hobey.keeps
      · rw [show ∀ k : Host, (k.setAgent a (.unlock m)).status = k.status from fun _ => rfl,
          status_setLine_of_ne hne]
        exact .refl _
  | @insert τ ptr exist available eviction _ hpc hi =>
      have hin : (h.threads τ).inSet true (h.threads τ).set := ⟨by rw [hpc]; rfl, rfl⟩
      have hslots : (h.threads τ).stake.slots = (available, eviction) := by
        rw [Thread.stake, hpc]
        rfl
      have hk : ∀ {pc : Pc} {ds : List Addr}, pc = .unlockSetW true ∨ pc = .unlockSetW false →
          ({ h.threads τ with stack := ds, pc := pc } : Thread).stake
            = { (h.threads τ).stake with slots := (none, none) } := by
        rintro pc ds (rfl | rfl) <;> simp only [Thread.stake, hpc] <;> rfl
      have hsub : ({ (h.threads τ).stake with slots := (none, none) } : Stake).Sub
          (h.threads τ).stake :=
        ⟨fun _ => id, fun _ => id, fun _ => id, fun _ => id, fun _ => by rintro ⟨⟩, fun _ => by rintro ⟨⟩⟩
      cases hi with
      | none => exact hh.still hl rfl rfl rfl ((hk (.inr rfl)).symm ▸ hsub)
      | reused => exact hh.still hl rfl (status_setLine rfl) rfl ((hk (.inl rfl)).symm ▸ hsub)
      | @fresh s d ds he hs hd =>
          have hp := (hh.fits τ).available s (by rw [hslots]; exact hs)
          refine hh.insert hl rfl hin (fun x => ?_) (by simp only [Thread.stake, hpc]; rfl)
            fun x hx => .inl (by rwa [hk (.inl rfl)] at hx)
          rcases eq_or_ne x ⟨false, (h.threads τ).set, s⟩ with rfl | hne
          · exact .inr ⟨.inl hp, rfl⟩
          · exact .inl (status_setLine_of_ne hne)
      | @moved s he hs ha hst =>
          obtain ⟨hstable, hp⟩ := (hh.fits τ).eviction s (by rw [hslots]; exact hs)
          have hne' : (⟨true, (h.threads τ).set, s⟩ : LineRef) ≠ ⟨false, (h.threads τ).set, s⟩ :=
            fun he => by cases he
          refine hh.insert hl rfl hin (fun x => ?_) (by simp only [Thread.stake, hpc]; rfl)
            fun x hx => ?_
          · rcases eq_or_ne x ⟨false, (h.threads τ).set, s⟩ with rfl | hne
            · exact .inr ⟨.inr ⟨rfl, hstable⟩, rfl⟩
            rcases eq_or_ne x ⟨true, (h.threads τ).set, s⟩ with rfl | hne''
            · exact .inr ⟨.inl hp, rfl⟩
            · exact .inl ((status_setLine_of_ne hne).trans (status_setLine_of_ne hne''))
          · cases hx
            exact .inr ⟨hp, rfl, by
              rw [show ∀ (k : Host) t, (k.setThread τ t).status = k.status from fun _ _ => rfl,
                status_setLine_of_ne hne', status_setLine_self]
              exact hstable⟩

theorem owned {apptNum : ℕ} {ds : List Addr} (hr : (host apptNum ds).Reachable h) : h.Owned :=
  Host.invariant (fun _ hi => .init hi)
    (fun _ _ _ hr hh hs => hh.step (setsHeld hr) (waitsWell hr) hs) hr

end Host

end Ting
