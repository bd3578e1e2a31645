/-
# `Ting.Soft.Unique` — a block has at most one line

A tag labels at most one line that is not `PRESERVED`, in its set and the shadow set together.
Only `newLine` gives a line a tag.  It holds the write lock of the set, and what its loop has
not seen in the slots behind it cannot turn up there any more; a line that it moves to the
shadow set takes its tag along.  So the lookups, which read slot after slot under the read
lock, never find a tag in both places.
-/
import Ting.Soft.Owned

namespace Ting

/-- The line that a thread has found, as long as nobody can take it away: under the read lock of
the set, and while it waits for its own request. -/
def Pc.found (i : SetIndex) : Pc → Option LineRef
  | findShadow (some s) _ => some ⟨false, i, s⟩
  | cas r | casInvalid r | unlock (.line r) | unlock (.request r _) | request r _
  | await r _ _ _ | spin r _ | finish r _ _ => some r
  | _ => none

/-- The slots that `newLine` has still to look at, while it has not found the tag. -/
def Pc.unseen : Pc → Option (List Slot)
  | scan todo false _ _ => some todo
  | _ => none

/-- The line that an agent has found. -/
def AgentPc.found : AgentPc → Option LineRef
  | findShadow m (some s) _ => some ⟨false, calLineSet m.clineTag, s⟩
  | loop _ r => some r
  | _ => none

/-- The tag that an agent's message names. -/
def AgentPc.tag : AgentPc → BitVec 64
  | lockSet m | find m _ | findShadow m _ _ | loop m _ | unlock m => m.clineTag
  | _ => 0

/-- A position in which a thread knows nothing of its set. -/
def Pc.Plain (pc : Pc) : Prop :=
  pc.unseen = none ∧ ∀ i, pc.found i = none

theorem Pc.Plain.loop {t : Thread} : t.loop.Plain := by
  rcases loop_cases (t := t) with h | h <;> rw [h] <;> exact ⟨rfl, fun _ => rfl⟩

theorem Pc.Plain.onEvictReply {t : Thread} {tag : BitVec 64} {m : CtrlMsg} :
    (t.onEvictReply tag m).pc.Plain := by
  obtain ⟨pc, h, rfl | rfl | rfl | rfl⟩ := onEvictReply_cases t tag m <;>
    rw [h] <;> exact ⟨rfl, fun _ => rfl⟩

theorem Pc.found_cases {pc : Pc} {i : SetIndex} {r : LineRef} (h : pc.found i = some r) :
    pc.setLock = some false ∨ ∃ s, pc.claim = some (r, s) := by
  cases pc with
  | unlock k => exact .inl rfl
  | findShadow | cas | casInvalid => exact .inl rfl
  | request | await | spin | finish => cases h; exact .inr ⟨_, rfl⟩
  | _ => cases h

theorem AgentPc.found_inSet {p : AgentPc} {r : LineRef} (h : p.found = some r) :
    p.inSet = some (calLineSet p.tag) := by
  cases p with
  | findShadow | loop => rfl
  | _ => cases h

namespace Host

variable {h h' : Host} {r : LineRef}

/-- What a step leaves of line `r` when nothing is inserted in its set. -/
structure Kept (h h' : Host) (r : LineRef) : Prop where
  tag : (h'.lines r).tag = (h.lines r).tag
  empty : h.status r = .preserved → h'.status r = .preserved
  full : r.shadow = false → h.status r ≠ .preserved → h'.status r ≠ .preserved

/-- A line that does not hold the tag does not come to hold it. -/
theorem Kept.holds {tag : BitVec 64} (hk : Kept h h' r) (hn : (h.lines r).holds tag = false) :
    (h'.lines r).holds tag = false := by
  simp only [LineInfo.holds, ne_eq, decide_eq_false_iff_not, not_and] at hn ⊢
  intro hp
  rw [hk.tag]
  exact hn fun he => hp (hk.empty he)

/-- A step that writes one line, whose tag it keeps. -/
theorem Kept.of_update {x : LineRef} {l : LineInfo}
    (hlines : h'.lines = Function.update h.lines x l) (ht : l.tag = (h.lines x).tag)
    (hempty : h.status x = .preserved → l.status = .preserved)
    (hfull : x.shadow = false → h.status x ≠ .preserved → l.status ≠ .preserved) (r : LineRef) :
    Kept h h' r := by
  rcases eq_or_ne r x with rfl | hne
  · have hr : h'.lines r = l := by rw [hlines, Function.update_self]
    have hst : h'.status r = l.status := by rw [status, hr]
    exact ⟨by rw [hr, ht], by rwa [hst], by rwa [hst]⟩
  · have hr : h'.lines r = h.lines r := by rw [hlines, Function.update_of_ne hne]
    have hst : h'.status r = h.status r := by rw [status, hr, status]
    exact ⟨by rw [hr], by rw [hst]; exact id, by rw [hst]; exact fun _ => id⟩

/-- A line that a step does not write. -/
theorem Kept.of_eq (hr : h'.lines r = h.lines r) : Kept h h' r := by
  have hst : h'.status r = h.status r := by rw [status, hr, status]
  exact ⟨by rw [hr], by rw [hst]; exact id, by rw [hst]; exact fun _ => id⟩

/-- A tag changes only where a thread that holds the write lock of the set inserts a line. -/
theorem Stepped.kept {a : HostAction} (hs : Stepped h a h') (hh : h.Owned) (r : LineRef) :
    Kept h h' r ∨ ∃ τ ptr, a = .insert τ ptr ∧ (h.threads τ).inSet true r.set ∧ h.Loose r := by
  have hlock : ∀ {k : Host} {x : LineRef} {l : LineInfo},
      k.lines = Function.update h.lines x l → l.tag = (h.lines x).tag →
      l.status = (h.lines x).status → Kept h k r := by
    intro k x l hk ht hst
    exact .of_update hk ht (fun hp => hst.trans hp) (fun _ hp => hst.symm ▸ hp) r
  have hfull : ∀ {k : Host} {x : LineRef} {l : LineInfo},
      k.lines = Function.update h.lines x l → l.tag = (h.lines x).tag →
      h.status x ≠ .preserved → l.status ≠ .preserved → Kept h k r := by
    intro k x l hk ht hst hst'
    exact .of_update hk ht (fun hp => absurd hp hst) (fun _ _ => hst') r
  cases hs with
  | evictDiscard | evictLock | lineLock | lineUnlock | evictEnd => exact .inl (hlock rfl rfl rfl)
  | @evictClaim τ w hpc =>
      have hcur : (h.threads τ).stake.cur = some ((h.threads τ).cur, .trying) := by
        rw [Thread.stake, hpc]
        rfl
      exact .inl (hfull rfl rfl ((hh.fits τ).not_preserved (.inr (.inr ⟨_, hcur⟩))) (by rintro ⟨⟩))
  | @evictDrop τ w hpc =>
      have hcur : (h.threads τ).stake.cur = some ((h.threads τ).cur, .ending) := by
        rw [Thread.stake, hpc]
        rfl
      refine .inl (.of_update (l := (h.lines (h.threads τ).cur).setFlagAndStatus false .preserved)
        rfl rfl (fun _ => rfl) (fun hx _ => ?_) r)
      rw [((hh.fits τ).cur _ _ hcur).1] at hx
      cases hx
  | @claim τ x k hpc hf hst =>
      refine .inl (hfull rfl rfl ?_ ?_)
      · rw [status, hst]
        split <;> rintro ⟨⟩
      · rw [LineInfo.setFlagAndStatus]
        rcases k.toStatus_eq with hk | hk <;> rw [hk] <;> rintro ⟨⟩
  | finish _ hp =>
      obtain ⟨hst, hst', htag, -⟩ := LineInfo.publish_full hp
      exact .inl (hfull rfl htag hst hst')
  | restored _ hl =>
      obtain ⟨hst, hst', htag, -⟩ := LineInfo.restore_full hl
      exact .inl (hfull rfl htag hst hst')
  | agentObey _ _ hl =>
      obtain ⟨hst, htag, -⟩ := hl.full
      exact .inl (.of_update rfl htag hst.mpr (fun _ => mt hst.mp) r)
  | @insert τ ptr _ _ _ _ hpc hi =>
      rcases hi.lines hh hpc r with hr | ⟨hin, hloose⟩
      · exact .inl (.of_eq hr)
      · exact .inr ⟨τ, ptr, rfl, hin, hloose⟩
  | _ => exact .inl (.of_eq rfl)

/-! ## Tags -/

/-- Line `r` carries the tag, and is in the set of the tag; a line of the set itself is not
empty. -/
structure Carries (h : Host) (tag : BitVec 64) (r : LineRef) : Prop where
  tag_eq : (h.lines r).tag = tag
  set : r.set = calLineSet tag
  full : r.shadow = false → h.status r ≠ .preserved

/-- Where the tags are, and what threads and agents know about them. -/
structure Tagged (h : Host) : Prop where
  home : ∀ r, h.status r ≠ .preserved → r.set = calLineSet (h.lines r).tag
  unique : ∀ r r', h.status r ≠ .preserved → h.status r' ≠ .preserved →
    (h.lines r).tag = (h.lines r').tag → r = r'
  seen : ∀ τ todo, (h.threads τ).pc.unseen = some todo → ∀ b s, s ∉ todo →
    (h.lines ⟨b, (h.threads τ).set, s⟩).holds (h.threads τ).tag = false
  found : ∀ τ r, (h.threads τ).pc.found (h.threads τ).set = some r →
    Carries h (h.threads τ).tag r
  agent : ∀ a r, (h.agents a).found = some r → Carries h (h.agents a).tag r

theorem Carries.kept {tag : BitVec 64} (hc : Carries h tag r) (hk : Kept h h' r) :
    Carries h' tag r :=
  ⟨hk.tag.trans hc.tag_eq, hc.set, fun hr => hk.full hr (hc.full hr)⟩

theorem holds_iff {tag : BitVec 64} {l : LineInfo} :
    l.holds tag = true ↔ l.status ≠ .preserved ∧ l.tag = tag := by
  simp [LineInfo.holds]

theorem Carries.of_holds {b : Bool} {tag : BitVec 64} {s : Slot}
    (hs : (h.lines ⟨b, calLineSet tag, s⟩).holds tag) : Carries h tag ⟨b, calLineSet tag, s⟩ :=
  ⟨(holds_iff.mp hs).2, rfl, fun _ => (holds_iff.mp hs).1⟩

/-- Nothing that a thread has found is taken away by others. -/
theorem Tagged.kept_found {a : HostAction} (ht : h.Tagged) (hs : Stepped h a h') (hl : h.SetsHeld)
    (hh : h.Owned) {σ : ThreadId} (hr : (h.threads σ).pc.found (h.threads σ).set = some r) :
    Kept h h' r ∨ ∃ ptr, a = .insert σ ptr := by
  rcases hs.kept hh r with hk | ⟨τ, ptr, ha, hin, hloose⟩
  · exact .inl hk
  rcases eq_or_ne σ τ with rfl | hne
  · exact .inr ⟨ptr, ha⟩
  rcases Pc.found_cases hr with hread | ⟨s, hc⟩
  · have hset := (ht.found σ r hr).set
    exact absurd hin (hl.no_writer hne (w := false) ⟨hread, hset.symm⟩)
  · exact absurd hloose (hh.not_loose (.inl ⟨s, hc⟩))

/-- Nor is what an agent has found. -/
theorem Tagged.kept_agent {a : HostAction} (ht : h.Tagged) (hs : Stepped h a h') (hl : h.SetsHeld)
    (hh : h.Owned) {i : AgentId} (hr : (h.agents i).found = some r) : Kept h h' r := by
  rcases hs.kept hh r with hk | ⟨τ, ptr, ha, hin, hloose⟩
  · exact hk
  · have hset := (ht.agent i r hr).set
    exact absurd hin (hl.no_writer_agent (hset ▸ AgentPc.found_inSet hr))

/-! ## Steps -/

theorem Pc.unseen_inSet {pc : Pc} {todo : List Slot} (h : pc.unseen = some todo) :
    pc.setLock = some true := by
  cases pc with
  | scan => rfl
  | _ => cases h

/-- A step that inserts nothing keeps what is known, and what its party learns is so. -/
theorem Tagged.of_kept (ht : h.Tagged) (hk : ∀ r, Kept h h' r)
    (hseen : ∀ τ todo, (h'.threads τ).pc.unseen = some todo → ∀ b s, s ∉ todo →
      (h.lines ⟨b, (h'.threads τ).set, s⟩).holds (h'.threads τ).tag = false)
    (hfound : ∀ τ r, (h'.threads τ).pc.found (h'.threads τ).set = some r →
      Carries h (h'.threads τ).tag r)
    (hagent : ∀ a r, (h'.agents a).found = some r → Carries h (h'.agents a).tag r) :
    h'.Tagged where
  home r hr := by
    rw [(hk r).tag]
    exact ht.home r fun he => hr ((hk r).empty he)
  unique r r' hr hr' he := by
    rw [(hk r).tag, (hk r').tag] at he
    exact ht.unique r r' (fun he => hr ((hk r).empty he)) (fun he => hr' ((hk r').empty he)) he
  seen τ todo hpc b s hs := (hk _).holds (hseen τ todo hpc b s hs)
  found τ r hr := (hfound τ r hr).kept (hk r)
  agent a r hr := (hagent a r hr).kept (hk r)

/-- A step of a thread that inserts nothing. -/
theorem Tagged.thread {τ : ThreadId} {t' : Thread} (ht : h.Tagged) (hk : ∀ r, Kept h h' r)
    (hth : h'.threads = Function.update h.threads τ t') (hag : h'.agents = h.agents)
    (hseen : ∀ todo, t'.pc.unseen = some todo → ∀ b s, s ∉ todo →
      (h.lines ⟨b, t'.set, s⟩).holds t'.tag = false)
    (hfound : ∀ r, t'.pc.found t'.set = some r → Carries h t'.tag r) : h'.Tagged := by
  refine ht.of_kept hk ?_ ?_ (by rw [hag]; exact ht.agent)
  · rw [hth]
    exact (Function.forall_update_iff h.threads (p := fun _ t => ∀ todo, Pc.unseen t.pc = some todo →
      ∀ b s, s ∉ todo → (h.lines ⟨b, t.set, s⟩).holds t.tag = false)).mpr
      ⟨hseen, fun σ _ => ht.seen σ⟩
  · rw [hth]
    exact (Function.forall_update_iff h.threads (p := fun _ t => ∀ r, Pc.found t.set t.pc = some r →
      Carries h t.tag r)).mpr ⟨hfound, fun σ _ => ht.found σ⟩

/-- A step of an agent. -/
theorem Tagged.agentStep {i : AgentId} {p' : AgentPc} (ht : h.Tagged) (hk : ∀ r, Kept h h' r)
    (hth : h'.threads = h.threads) (hag : h'.agents = Function.update h.agents i p')
    (hfound : ∀ r, p'.found = some r → Carries h p'.tag r) : h'.Tagged := by
  refine ht.of_kept hk (by rw [hth]; exact ht.seen) (by rw [hth]; exact ht.found) ?_
  rw [hag]
  exact (Function.forall_update_iff h.agents (p := fun _ p => ∀ r, AgentPc.found p = some r →
    Carries h p.tag r)).mpr ⟨hfound, fun j _ => ht.agent j⟩

/-- An insertion.  Line `r₀` gets the thread's tag, which no line of the set carries; every other
line that is not empty has its tag from a line of its set, and no two from the same. -/
theorem Tagged.insert {τ : ThreadId} {ptr : Addr} {available eviction : Option Slot} {r₀ : LineRef}
    (ht : h.Tagged) (origin : LineRef → LineRef) (hs : Stepped h (.insert τ ptr) h')
    (hl : h.SetsHeld) (hh : h.Owned) (hpc : (h.threads τ).pc = .scan [] false available eviction)
    (hpc' : ∃ new, (h'.threads τ).pc = .unlockSetW new)
    (hr₀ : (h'.lines r₀).tag = (h.threads τ).tag ∧ r₀.set = (h.threads τ).set)
    (hinj : ∀ r r', r ≠ r₀ → r' ≠ r₀ → origin r = origin r' → r = r')
    (horigin : ∀ r, r ≠ r₀ → h'.status r ≠ .preserved → h.status (origin r) ≠ .preserved ∧
      (h'.lines r).tag = (h.lines (origin r)).tag ∧ (origin r).set = r.set) : h'.Tagged := by
  obtain ⟨new, hpc'⟩ := hpc'
  -- no line carries the tag before
  have hnone : ∀ r, h.status r ≠ .preserved → (h.lines r).tag ≠ (h.threads τ).tag := by
    intro r hr he
    have hset : r.set = (h.threads τ).set := (ht.home r hr).trans (by rw [he, Thread.set])
    obtain ⟨b, i, s⟩ := r
    subst hset
    have := ht.seen τ [] (by rw [hpc]; rfl) b s (List.not_mem_nil)
    rw [Bool.eq_false_iff, Ne, holds_iff] at this
    exact this ⟨hr, he⟩
  have hother : ∀ σ, σ ≠ τ → h'.threads σ = h.threads σ := fun σ hne =>
    hs.threads_other fun k hk => by cases hk; exact hne.symm
  have hagents : ∀ i, h'.agents i = h.agents i := fun i => hs.agents_other fun k hk => by cases hk
  constructor
  · intro r hr
    rcases eq_or_ne r r₀ with rfl | hne
    · rw [hr₀.1, hr₀.2, Thread.set]
    · obtain ⟨ho, htag, hset⟩ := horigin r hne hr
      rw [htag, ← hset]
      exact ht.home _ ho
  · intro r r' hr hr' he
    rcases eq_or_ne r r₀ with hr₁ | hne <;> rcases eq_or_ne r' r₀ with hr₂ | hne'
    · rw [hr₁, hr₂]
    · obtain ⟨ho, htag, -⟩ := horigin r' hne' hr'
      exact absurd (by rw [← htag, ← he, hr₁, hr₀.1]) (hnone _ ho)
    · obtain ⟨ho, htag, -⟩ := horigin r hne hr
      exact absurd (by rw [← htag, he, hr₂, hr₀.1]) (hnone _ ho)
    · obtain ⟨ho, htag, -⟩ := horigin r hne hr
      obtain ⟨ho', htag', -⟩ := horigin r' hne' hr'
      exact hinj r r' hne hne' (ht.unique _ _ ho ho' (by rw [← htag, ← htag', he]))
  · intro σ todo hun b s hs'
    rcases eq_or_ne σ τ with rfl | hne
    · rw [hpc'] at hun
      cases hun
    · rw [hother σ hne] at hun ⊢
      have hin : (h.threads σ).inSet true (h.threads σ).set := ⟨Pc.unseen_inSet hun, rfl⟩
      rcases hs.kept hh ⟨b, (h.threads σ).set, s⟩ with hk | ⟨σ', ptr', he, hin', -⟩
      · exact hk.holds (ht.seen σ todo hun b s hs')
      · cases he
        exact absurd hin' (hl.no_writer hne hin)
  · intro σ r hr
    rcases eq_or_ne σ τ with rfl | hne
    · rw [hpc'] at hr
      cases hr
    · rw [hother σ hne] at hr ⊢
      rcases ht.kept_found hs hl hh hr with hk | ⟨ptr', he⟩
      · exact (ht.found σ r hr).kept hk
      · cases he
        exact absurd rfl hne
  · intro i r hr
    rw [hagents i] at hr ⊢
    exact (ht.agent i r hr).kept (ht.kept_agent hs hl hh hr)

/-- The slot of an empty line, or of an invalid one. -/
theorem Tagged.overwrite {τ : ThreadId} {ptr : Addr} {available eviction : Option Slot}
    {r₀ : LineRef} {l : LineInfo} (ht : h.Tagged) (hs : Stepped h (.insert τ ptr) h')
    (hl : h.SetsHeld) (hh : h.Owned) (hpc : (h.threads τ).pc = .scan [] false available eviction)
    (hlines : h'.lines = Function.update h.lines r₀ l) (htag : l.tag = (h.threads τ).tag)
    (hset : r₀.set = (h.threads τ).set) (hpc' : ∃ new, (h'.threads τ).pc = .unlockSetW new) :
    h'.Tagged := by
  have hrest : ∀ r, r ≠ r₀ → h'.lines r = h.lines r := fun r hne => by
    rw [hlines, Function.update_of_ne hne]
  refine ht.insert id hs hl hh hpc hpc'
    ⟨by rw [hlines, Function.update_self, htag], hset⟩ (fun _ _ _ _ => id) fun r hne hr => ?_
  rw [status, hrest r hne] at hr
  exact ⟨hr, by rw [hrest r hne, id], rfl⟩

/-- The slot `r₀` of a line that goes to `r₁`. -/
theorem Tagged.move {τ : ThreadId} {ptr : Addr} {available eviction : Option Slot}
    {r₀ r₁ : LineRef} {l l₁ : LineInfo} (ht : h.Tagged) (hs : Stepped h (.insert τ ptr) h')
    (hl : h.SetsHeld) (hh : h.Owned) (hpc : (h.threads τ).pc = .scan [] false available eviction)
    (hlines : h'.lines = Function.update (Function.update h.lines r₁ l₁) r₀ l)
    (htag : l.tag = (h.threads τ).tag) (hset : r₀.set = (h.threads τ).set)
    (htag₁ : l₁.tag = (h.lines r₀).tag) (hset₁ : r₁.set = r₀.set)
    (hst : h.status r₀ ≠ .preserved) (hpc' : ∃ new, (h'.threads τ).pc = .unlockSetW new) :
    h'.Tagged := by
  have h₁ : r₁ ≠ r₀ → h'.lines r₁ = l₁ := fun hne => by
    rw [hlines, Function.update_of_ne hne, Function.update_self]
  have hrest : ∀ r, r ≠ r₀ → r ≠ r₁ → h'.lines r = h.lines r := fun r hne hne₁ => by
    rw [hlines, Function.update_of_ne hne, Function.update_of_ne hne₁]
  refine ht.insert (fun r => if r = r₁ then r₀ else r) hs hl hh hpc hpc'
    ⟨by rw [hlines, Function.update_self, htag], hset⟩ (fun r r' hne hne' he => ?_)
    fun r hne hr => ?_
  · split at he <;> split at he
    next hr hr' => rw [hr, hr']
    next => exact absurd he.symm hne'
    next => exact absurd he hne
    next => exact he
  · split
    next hr₁ =>
      subst hr₁
      exact ⟨hst, by rw [h₁ hne, htag₁], hset₁.symm⟩
    next hne₁ =>
      rw [status, hrest r hne hne₁] at hr
      exact ⟨hr, by rw [hrest r hne hne₁], rfl⟩

theorem Tagged.step {a : HostAction} (ht : h.Tagged) (hs : Stepped h a h') (hl : h.SetsHeld)
    (hh : h.Owned) : h'.Tagged := by
  have hs' := hs
  have hk : (∀ σ ptr, a ≠ .insert σ ptr) → ∀ r, Kept h h' r := fun ha r =>
    (hs.kept hh r).resolve_right (by rintro ⟨σ, ptr, he, -⟩; exact ha σ ptr he)
  have hplain : ∀ {τ : ThreadId} {t' : Thread}, (∀ σ ptr, a ≠ .insert σ ptr) →
      h'.threads = Function.update h.threads τ t' → h'.agents = h.agents → t'.pc.Plain →
      h'.Tagged := by
    intro τ t' ha hth hag hp
    exact ht.thread (hk ha) hth hag (fun _ hu => by rw [hp.1] at hu; cases hu)
      fun _ hf => by rw [hp.2] at hf; cases hf
  have hsame : ∀ {τ : ThreadId} {t' : Thread}, (∀ σ ptr, a ≠ .insert σ ptr) →
      h'.threads = Function.update h.threads τ t' → h'.agents = h.agents → t'.pc.unseen = none →
      t'.addr = (h.threads τ).addr →
      (∀ i r, t'.pc.found i = some r → (h.threads τ).pc.found i = some r) → h'.Tagged := by
    intro τ t' ha hth hag hu haddr hf
    have htag : t'.tag = (h.threads τ).tag := by rw [Thread.tag, haddr, Thread.tag]
    have hset : t'.set = (h.threads τ).set := by rw [Thread.set, htag, Thread.set]
    refine ht.thread (hk ha) hth hag (fun _ hu' => by rw [hu] at hu'; cases hu') fun r hr => ?_
    rw [htag]
    rw [hset] at hr
    exact ht.found τ r (hf _ r hr)
  cases hs with
  | call =>
      refine hplain (by rintro _ _ ⟨⟩) rfl rfl ?_
      dsimp only
      split
      · split <;> exact ⟨rfl, fun _ => rfl⟩
      · exact ⟨rfl, fun _ => rfl⟩
  | beginEvict | noEvict | evictInvalid | evictClaim | evictDiscard | evictLock | lockSet
  | findSkip | unlockSetW | lineLock | checked | unchecked | copy | copied | lineUnlock
  | restored | evictSpun => exact hplain (by rintro _ _ ⟨⟩) rfl rfl ⟨rfl, fun _ => rfl⟩
  | evictDrop | evictSend | finish =>
      refine hplain (by rintro _ _ ⟨⟩) rfl rfl ?_
      dsimp only
      split <;> exact ⟨rfl, fun _ => rfl⟩
  | bodyEnd =>
      refine hplain (by rintro _ _ ⟨⟩) rfl rfl ?_
      dsimp only
      split
      · exact ⟨rfl, fun _ => rfl⟩
      · exact .loop
  | evictEnd => exact hplain (by rintro _ _ ⟨⟩) rfl rfl .loop
  | unstash | evictReply => exact hplain (by rintro _ _ ⟨⟩) rfl rfl .onEvictReply
  | @found τ todo line hpc hf =>
      refine ht.thread (hk (by rintro _ _ ⟨⟩)) rfl rfl (fun _ => by rintro ⟨⟩) fun r hr => ?_
      cases hf with
      | none => cases hr
      | some hs =>
          cases hr
          exact .of_holds hs
  | @shadowSkip τ line s todo hpc =>
      refine hsame (by rintro _ _ ⟨⟩) rfl rfl rfl rfl fun i r hr => ?_
      rw [hpc]
      cases line <;> exact hr
  | claim hpc =>
      refine hsame (by rintro _ _ ⟨⟩) rfl rfl rfl rfl fun i r hr => ?_
      rcases hpc with ⟨hpc, _⟩ | ⟨hpc, _⟩ <;> rw [hpc] <;> exact hr
  | casFail hpc =>
      rcases hpc with ⟨hpc, ⟨rfl, _⟩ | rfl⟩ | ⟨hpc, rfl⟩ <;>
        exact hsame (by rintro _ _ ⟨⟩) rfl rfl rfl rfl fun i r hr => by rw [hpc]; exact hr
  | @unlock τ k hpc =>
      cases k with
      | request => exact hsame (by rintro _ _ ⟨⟩) rfl rfl rfl rfl fun i r hr => by rw [hpc]; exact hr
      | _ => exact hplain (by rintro _ _ ⟨⟩) rfl rfl ⟨rfl, fun _ => rfl⟩
  | request hpc | spun hpc =>
      exact hsame (by rintro _ _ ⟨⟩) rfl rfl rfl rfl fun i r hr => by rw [hpc]; exact hr
  | @reply τ r kind hasData granted m hpc =>
      rcases onReply_cases (h.threads τ) r kind hasData
        granted (h.lines (h.threads τ).cur).tag m with
        ⟨pc, he, rfl | rfl⟩ | ⟨he, -⟩
      · rcases replySwitch_cases r kind hasData granted
          m.mtype with hr | hr | ⟨_, _, ⟨_, hr⟩ | hr | ⟨_, _, hr⟩⟩
        · exact hplain (by rintro _ _ ⟨⟩) rfl rfl (by rw [he, hr]; exact ⟨rfl, fun _ => rfl⟩)
        · exact hplain (by rintro _ _ ⟨⟩) rfl rfl (by rw [he, hr]; exact ⟨rfl, fun _ => rfl⟩)
        all_goals
          exact hsame (by rintro _ _ ⟨⟩) rfl rfl (by rw [he, hr]; rfl) (by rw [he])
            fun i x hx => by rw [he, hr] at hx; rw [hpc]; exact hx
      · exact hplain (by rintro _ _ ⟨⟩) rfl rfl (by rw [he]; exact ⟨rfl, fun _ => rfl⟩)
      · exact hsame (by rintro _ _ ⟨⟩) rfl rfl (by rw [he, hpc]; rfl) (by rw [he])
          fun i x hx => by rw [he] at hx; exact hx
  | @looked τ line shadow todo hpc hf =>
      refine ht.thread (hk (by rintro _ _ ⟨⟩)) rfl rfl (fun todo' hu => ?_) fun r hr => ?_
      · rcases afterLookup_cases h (h.threads τ) line shadow with
          ⟨k, he, -⟩ | ⟨s, -, -, he⟩ <;> rw [he] at hu <;> cases hu
      · rcases afterLookup_cases h (h.threads τ) line shadow with
          ⟨k, he, rfl | rfl | ⟨rfl, -⟩ | ⟨s, rfl, rfl⟩⟩ | ⟨s, rfl, -, he⟩ <;> rw [he] at hr <;> cases hr
        · cases hf with | some hs => exact .of_holds hs
        · exact ht.found τ _ (by rw [hpc]; rfl)
  | lockSetW =>
      refine ht.thread (hk (by rintro _ _ ⟨⟩)) rfl rfl (fun todo hu b s hs => ?_) fun _ => by rintro ⟨⟩
      cases hu
      exact absurd (List.mem_finRange s) hs
  | @scan τ s todo exist available eviction hpc =>
      obtain ⟨exist', available', eviction', he, hexist, -⟩ := scanSlot_cases h
        (h.threads τ) s todo exist available
        eviction
      refine ht.thread (hk (by rintro _ _ ⟨⟩)) rfl rfl (fun todo' hu b x hx => ?_) fun r hr => ?_
      · rw [he] at hu
        cases exist' with
        | true => cases hu
        | false =>
            cases hu
            obtain ⟨rfl, hline, hshadow⟩ := hexist rfl
            rcases eq_or_ne x s with rfl | hne
            · cases b with
              | true => exact hshadow
              | false => exact hline
            · exact ht.seen τ (s :: todo) (by rw [hpc]; rfl) b x
                (List.not_mem_cons_of_ne_of_not_mem hne hx)
      · rw [he] at hr
        cases hr
  | @insert τ ptr exist available eviction _ hpc hi =>
      have hslots : (h.threads τ).stake.slots = (available, eviction) := by
        rw [Thread.stake, hpc]
        rfl
      have hpc' : ∀ {k : Host} {t' : Thread} {new : Bool}, t'.pc = .unlockSetW new →
          ∃ new, ((k.setThread τ t').threads τ).pc = .unlockSetW new := by
        intro k t' new he
        rw [setThread_threads, Function.update_self]
        exact ⟨new, he⟩
      cases hi with
      | none => exact ht.thread (fun r => .of_eq rfl) rfl rfl (fun _ => by rintro ⟨⟩) fun _ => by rintro ⟨⟩
      | fresh he => exact ht.overwrite hs' hl hh (he ▸ hpc) rfl rfl rfl (hpc' rfl)
      | reused he => exact ht.overwrite hs' hl hh (he ▸ hpc) rfl rfl rfl (hpc' rfl)
      | @moved s he hs =>
          have hst := ((hh.fits τ).eviction s (by rw [hslots]; exact hs)).1
          exact ht.move hs' hl hh (he ▸ hpc) rfl rfl rfl rfl rfl
            (fun hp => by rw [hp] at hst; cases hst) (hpc' rfl)
  | swallow => exact ht
  | take | agentLock | agentSkip | agentFault | agentUnlock =>
      exact ht.agentStep (hk (by rintro _ _ ⟨⟩)) rfl rfl fun _ => by rintro ⟨⟩
  | @agentFound a m todo line hpc hf =>
      refine ht.agentStep (hk (by rintro _ _ ⟨⟩)) rfl rfl fun r hr => ?_
      cases hf with
      | none => cases hr
      | some hs =>
          cases hr
          exact .of_holds hs
  | @agentShadowSkip a m line s todo hpc hn =>
      refine ht.agentStep (hk (by rintro _ _ ⟨⟩)) rfl rfl fun r hr => ?_
      have := ht.agent a r (by rw [hpc]; cases line <;> exact hr)
      rwa [hpc] at this
  | @agentLooked a m line shadow todo hpc hf =>
      refine ht.agentStep (hk (by rintro _ _ ⟨⟩)) rfl rfl fun r hr => ?_
      cases line with
      | none =>
          cases hf with
          | none => cases hr
          | some hs =>
              cases hr
              exact .of_holds hs
      | some s =>
          cases shadow with
          | some => cases hr
          | none =>
              cases hr
              have := ht.agent a ⟨false, calLineSet m.clineTag, s⟩ (by rw [hpc]; rfl)
              rwa [hpc] at this
  | agentObey hpc => exact ht.agentStep (hk (by rintro _ _ ⟨⟩)) rfl rfl fun _ => by rintro ⟨⟩

theorem Tagged.init {apptNum : ℕ} {ds : List Addr} (hi : Init apptNum ds h) : h.Tagged where
  home r hr := absurd (hi.status r) hr
  unique r _ hr := absurd (hi.status r) hr
  seen τ todo hu := by rw [hi.pc τ] at hu; cases hu
  found τ r hr := by rw [hi.pc τ] at hr; cases hr
  agent a r hr := by rw [hi.agents a] at hr; cases hr

theorem tagged {apptNum : ℕ} {ds : List Addr} (hr : (host apptNum ds).Reachable h) : h.Tagged :=
  Host.invariant (fun _ hi => .init hi)
    (fun _ _ _ hr ht hs => ht.step hs (setsHeld hr) (owned hr)) hr

/-! ## The assertions of the lookups -/

/-- A tag that is found in the set is not found in the shadow set. -/
theorem Tagged.not_both {tag : BitVec 64} {s s' : Slot} (ht : h.Tagged)
    (hs : Carries h tag ⟨false, calLineSet tag, s⟩)
    (hs' : (h.lines ⟨true, calLineSet tag, s'⟩).holds tag) : False := by
  obtain ⟨hne, htag⟩ := holds_iff.mp hs'
  cases ht.unique _ _ (hs.full rfl) hne (hs.tag_eq.trans htag.symm)

end Host

end Ting
