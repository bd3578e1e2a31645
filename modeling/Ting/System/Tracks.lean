/-
# `Ting.System.Tracks` — the lines of a node and its copies

How the copies of the protocol are kept in the lines of a cache.  A line that is not empty is
the place of the copy of its block (`Copy.At`), and a thread that is about to evict a line, or
has asked for one, knows what has become of the copy (`Thread.Follows`).

A thread that has lost an outstanding eviction out of sight knows nothing of it any more: the
copy stays claimed, and no line of this relation says by whom.
-/
import Ting.System.State
import Ting.Soft.Evictions
import Ting.Soft.Searches

namespace Ting

/-- The status of a line that rests. -/
def Rest.status : Rest → CacheStatus
  | invalid => .invalid
  | shared => .shared
  | modified => .modified

/-- The status of a line that a thread has claimed. -/
def Claim.status (q : Claim) : CacheStatus :=
  if q.kind.isEvict then if q.downgraded then .toShared else .toPreserved else q.kind.toStatus

theorem Claim.status_isTransient {q : Claim} (hk : q.kind.isRequest) : q.status.isTransient := by
  have hclass : ∀ k : RawMessageType, k.isRequest = true → k.isEvict = false →
      k.toStatus.isTransient = true := by decide
  unfold status
  split
  next => split <;> rfl
  next hev => exact hclass _ hk (Bool.eq_false_iff.mpr hev)

/-- A line, in the shadow set or not, that keeps the copy. -/
def Copy.At (shadow : Bool) (l : LineInfo) : Copy → Prop
  | absent => False
  | resting st w => l.flag = false ∧ l.status = st.status ∧ shadow = w.isSome
  | claimed q => l.flag = q.flag ∧ l.status = q.status ∧ shadow = q.kind.isEvict

/-- What an agent may do to a copy. -/
inductive Copy.Yields : Copy → Copy → Prop
  | refl (c : Copy) : Yields c c
  | resting {st st' : Rest} {w : Option ThreadId} (h : st = .invalid → st' = .invalid) :
      Yields (.resting st w) (.resting st' w)
  | claimed {q q' : Claim} (hτ : q'.thread = q.thread) (hk : q'.kind = q.kind)
      (hw : q'.await = q.await) (hf : q.flag → q'.flag) : Yields (.claimed q) (.claimed q')

/-- The copy is claimed by thread `τ` for a request of type `k`. -/
def Copy.ClaimedBy (τ : ThreadId) (k : RawMessageType) (P : Claim → Prop) (c : Copy) : Prop :=
  ∃ q, c = .claimed q ∧ q.thread = τ ∧ q.kind = k ∧ P q

theorem Copy.ClaimedBy.yields {τ : ThreadId} {k : RawMessageType} {P : Claim → Prop} {c c' : Copy}
    (h : c.ClaimedBy τ k P) (hy : c.Yields c')
    (hP : ∀ q q' : Claim, q'.await = q.await → (q.flag → q'.flag) → P q → P q') :
    c'.ClaimedBy τ k P := by
  obtain ⟨q, rfl, hτ, hk, hq⟩ := h
  cases hy with
  | refl => exact ⟨q, rfl, hτ, hk, hq⟩
  | claimed hτ' hk' hw hf => exact ⟨_, rfl, hτ'.trans hτ, hk'.trans hk, hP _ _ hw hf hq⟩

/-! ## Requests -/

namespace Pc

/-- The line whose miss or upgrade the thread is at, and the request. -/
def job : Pc → Option (LineRef × RawMessageType)
  | unlock (.request r k) | request r k | await r k _ _ | spin r k | finish r k _ => some (r, k)
  | _ => none

theorem claim_eq (pc : Pc) : pc.claim = pc.job.map fun x => (x.1, x.2.toStatus) := by
  cases pc with
  | unlock k => cases k <;> rfl
  | _ => rfl

/-- What a thread at this position knows of its claim. -/
def Asks : Pc → Claim → Prop
  | unlock _, q | request _ _, q => q.await = .unsent
  | await _ _ hasData granted, q => ∃ o, q.await = .waiting o hasData granted
  | spin _ _, q => q.await = .answered .dir2AppBitmapCheckFail
  | finish _ _ succ, q => ∃ t, q.await = .answered t ∧ t.isFail = !succ ∧ (t.isBitmapFail → q.flag)
  | _, _ => True

theorem Asks.yields {pc : Pc} {q q' : Claim} (hw : q'.await = q.await) (hf : q.flag → q'.flag)
    (h : pc.Asks q) : pc.Asks q' := by
  cases pc with
  | finish r k succ =>
      obtain ⟨t, ht, hfail, hflag⟩ := h
      exact ⟨t, hw.trans ht, hfail, fun hb => hf (hflag hb)⟩
  | await =>
      obtain ⟨o, ho⟩ := h
      exact ⟨o, hw.trans ho⟩
  | unlock | request | spin => exact hw.trans h
  | _ => trivial

end Pc

/-! ## Evictions -/

/-- The request that evicts a line. -/
def EvictType.request : EvictType → RawMessageType
  | evictShared => .rEvictShared
  | evictDirty => .rEvictDirty

theorem EvictType.request_isEvict (e : EvictType) : e.request.isEvict := by
  cases e <;> rfl

/-- The eviction that a thread waits for. -/
theorem Pc.phase_waiting {pc : Pc} {w : Bool} (h : pc.evicts = false) (hw : w) :
    pc.phase w = some .waiting := by
  subst hw
  cases pc <;> first | rfl | cases h

namespace Thread

/-- The eviction of block `b` that the thread waits for: its answer has not come, or the thread
has put it aside. -/
def Outstanding (t : Thread) (τ : ThreadId) (b : Block) : Copy → Prop :=
  Copy.ClaimedBy τ t.curType.request fun q => (∃ o, q.await = .waiting o false false) ∨
    ∃ m, t.stash = some m ∧ m.clineTag = b.getTag ∧ q.await = .answered m.mtype

/-- The eviction has been answered with `u`, and the thread has nothing put aside. -/
def Answered (t : Thread) (τ : ThreadId) (u : RawMessageType) (c : Copy) : Prop :=
  t.stash = none ∧ c.ClaimedBy τ t.curType.request fun q => q.await = .answered u

/-- What the thread knows of the copy that it is evicting. -/
def Evicts (t : Thread) (τ : ThreadId) (b : Block) (c : Copy) : Prop :=
  match t.pc with
  | .evictTry _ => ∃ st, c = .resting st (some τ)
  | .evictDiscard _ | .evictDrop _ => c = .resting .invalid (some τ) ∨ t.stash = none ∧
      c.ClaimedBy τ t.curType.request fun q => ∃ u, q.await = .answered u ∧
        (u.isEvictAck ∨ u = .dir2AppBitmapCheckFail ∧ q.flag)
  | .evictLock _ | .evictSend _ => c.ClaimedBy τ t.curType.request fun q => q.await = .unsent
  | .evictRestore => t.Answered τ .dir2AppMCheckFail c
  | .evictSpin => t.Answered τ .dir2AppBitmapCheckFail c
  | .evictEnd | .swallow | .fault => True
  | _ => t.waitCur → t.Outstanding τ b c

/-- Outside of `start_evict` and `wait_evict` there is nothing more to know. -/
theorem Evicts.of_outstanding {t : Thread} {τ : ThreadId} {b : Block} {c : Copy}
    (hpc : t.pc.evicts = false) (h : t.waitCur → t.Outstanding τ b c) : t.Evicts τ b c := by
  unfold Evicts
  cases hp : t.pc <;> rw [hp] at hpc <;> first | exact h | trivial

/-- And there it is all there is to know, as long as the thread goes on. -/
theorem Evicts.outstanding {t : Thread} {τ : ThreadId} {b : Block} {c : Copy}
    (h : t.Evicts τ b c) (hpc : t.pc.evicts = false) (hs : t.pc ≠ .swallow) (hf : t.pc ≠ .fault)
    (hw : t.waitCur) : t.Outstanding τ b c := by
  revert h
  unfold Evicts
  split
  case h_11 => exact fun h => h hw
  all_goals
    intro h
    simp_all [Pc.evicts]

theorem Evicts.trying {t : Thread} {τ : ThreadId} {b : Block} {c : Copy} {w : Bool}
    (h : t.Evicts τ b c) (hpc : t.pc = .evictTry w) : ∃ st, c = .resting st (some τ) := by
  rwa [Evicts, hpc] at h

theorem Evicts.ending {t : Thread} {τ : ThreadId} {b : Block} {c : Copy} {w : Bool}
    (h : t.Evicts τ b c) (hpc : t.pc = .evictDiscard w ∨ t.pc = .evictDrop w) :
    c = .resting .invalid (some τ) ∨ t.stash = none ∧
      c.ClaimedBy τ t.curType.request fun q => ∃ u, q.await = .answered u ∧
        (u.isEvictAck ∨ u = .dir2AppBitmapCheckFail ∧ q.flag) := by
  rcases hpc with hpc | hpc <;> rwa [Evicts, hpc] at h

theorem Evicts.unsent {t : Thread} {τ : ThreadId} {b : Block} {c : Copy} {w : Bool}
    (h : t.Evicts τ b c) (hpc : t.pc = .evictLock w ∨ t.pc = .evictSend w) :
    c.ClaimedBy τ t.curType.request fun q => q.await = .unsent := by
  rcases hpc with hpc | hpc <;> rwa [Evicts, hpc] at h

theorem Evicts.restoring {t : Thread} {τ : ThreadId} {b : Block} {c : Copy}
    (h : t.Evicts τ b c) (hpc : t.pc = .evictRestore) : t.Answered τ .dir2AppMCheckFail c := by
  rwa [Evicts, hpc] at h

theorem Evicts.spinning {t : Thread} {τ : ThreadId} {b : Block} {c : Copy}
    (h : t.Evicts τ b c) (hpc : t.pc = .evictSpin) : t.Answered τ .dir2AppBitmapCheckFail c := by
  rwa [Evicts, hpc] at h

theorem Evicts.yields {t : Thread} {τ : ThreadId} {b : Block} {c c' : Copy}
    (h : t.Evicts τ b c) (hy : c.Yields c') : t.Evicts τ b c' := by
  have hrest : (∃ st, c = .resting st (some τ)) → ∃ st, c' = .resting st (some τ) := by
    rintro ⟨st, rfl⟩
    cases hy <;> exact ⟨_, rfl⟩
  have hinv : c = .resting .invalid (some τ) → c' = .resting .invalid (some τ) := by
    rintro rfl
    cases hy with
    | refl => rfl
    | resting h => rw [h rfl]
  have hout : (t.waitCur → t.Outstanding τ b c) → t.waitCur → t.Outstanding τ b c' :=
    fun h hw => (h hw).yields hy fun q q' hq _ => by rw [hq]; exact id
  have hans : ∀ {u}, t.Answered τ u c → t.Answered τ u c' :=
    fun h => ⟨h.1, h.2.yields hy fun q q' hq _ => by rw [hq]; exact id⟩
  have hend : (c = .resting .invalid (some τ) ∨ t.stash = none ∧
      c.ClaimedBy τ t.curType.request fun q => ∃ u, q.await = .answered u ∧
        (u.isEvictAck ∨ u = .dir2AppBitmapCheckFail ∧ q.flag)) →
      c' = .resting .invalid (some τ) ∨ t.stash = none ∧
      c'.ClaimedBy τ t.curType.request fun q => ∃ u, q.await = .answered u ∧
        (u.isEvictAck ∨ u = .dir2AppBitmapCheckFail ∧ q.flag) := by
    refine Or.imp hinv (And.imp id fun hc => hc.yields hy fun q q' hq hf => ?_)
    rintro ⟨u, hu, ha⟩
    exact ⟨u, hq.trans hu, ha.imp id (And.imp id hf)⟩
  have hunsent : c.ClaimedBy τ t.curType.request (fun q => q.await = .unsent) →
      c'.ClaimedBy τ t.curType.request fun q => q.await = .unsent :=
    fun hc => hc.yields hy fun q q' hq _ => by rw [hq]; exact id
  revert h
  unfold Evicts
  split
  · exact hrest
  · exact hend
  · exact hend
  · exact hunsent
  · exact hunsent
  · exact hans
  · exact hans
  · exact id
  · exact id
  · exact id
  · exact hout

/-- What thread `τ` knows of the copies, where `addr` says which block a line keeps. -/
structure Follows (t : Thread) (τ : ThreadId) (addr : LineRef → Block) (c : Block → Copy) : Prop where
  job : ∀ r k, t.pc.job = some (r, k) →
    addr r = t.addr ∧ k.isEvict = false ∧ (c t.addr).ClaimedBy τ k t.pc.Asks
  next : t.startNext → ∃ st, c (addr t.next) = .resting st (some τ)
  cur : t.Evicts τ (addr t.cur) (c (addr t.cur))
  stash : ∀ m, t.stash = some m → ∃ b q, m.clineTag = b.getTag ∧ c b = .claimed q ∧
    q.thread = τ ∧ q.kind.isEvict ∧ q.await = .answered m.mtype

/-- A thread knows something of the copy at `cur` only while it has a stake in that line. -/
theorem Evicts.owner {t : Thread} {τ : ThreadId} {b : Block} {c : Copy} (h : t.Evicts τ b c) :
    (c.owner = some τ ∧ ∃ p, t.stake.cur = some (t.cur, p)) ∨ ∀ b' c', t.Evicts τ b' c' := by
  have hclaim : ∀ {k P}, c.ClaimedBy τ k P → c.owner = some τ := by
    rintro k P ⟨q, rfl, hτ, -, -⟩
    exact congrArg some hτ
  have hstake : ∀ {pc p}, t.pc = pc → pc.phase t.waitCur = some p →
      ∃ p, t.stake.cur = some (t.cur, p) := by
    rintro _ p rfl hp
    exact ⟨p, by rw [stake, hp]; rfl⟩
  cases he : t.pc.evicts
  · cases hw : t.waitCur
    · exact .inr fun b' c' => .of_outstanding he fun hw' => by rw [hw] at hw'; cases hw'
    · by_cases hend : t.pc = .swallow ∨ t.pc = .fault
      · refine .inr fun b' c' => ?_
        unfold Evicts
        rcases hend with hpc | hpc <;> rw [hpc] <;> trivial
      · refine .inl ⟨?_, hstake rfl (Pc.phase_waiting he hw)⟩
        exact hclaim (h.outstanding he (fun hpc => hend (.inl hpc)) (fun hpc => hend (.inr hpc)) hw)
  · revert h
    unfold Evicts
    split
    next hpc =>
      rintro ⟨st, rfl⟩
      exact .inl ⟨rfl, hstake hpc rfl⟩
    next hpc =>
      rintro (rfl | ⟨-, h⟩)
      · exact .inl ⟨rfl, hstake hpc rfl⟩
      · exact .inl ⟨hclaim h, hstake hpc rfl⟩
    next hpc =>
      rintro (rfl | ⟨-, h⟩)
      · exact .inl ⟨rfl, hstake hpc rfl⟩
      · exact .inl ⟨hclaim h, hstake hpc rfl⟩
    next hpc => exact fun h => .inl ⟨hclaim h, hstake hpc rfl⟩
    next hpc => exact fun h => .inl ⟨hclaim h, hstake hpc rfl⟩
    next hpc => exact fun h => .inl ⟨hclaim h.2, hstake hpc rfl⟩
    next hpc => exact fun h => .inl ⟨hclaim h.2, hstake hpc rfl⟩
    next => exact fun _ => .inr fun _ _ => trivial
    next => exact fun _ => .inr fun _ _ => trivial
    next => exact fun _ => .inr fun _ _ => trivial
    next h1 h2 h3 h4 h5 h6 h7 h8 _ _ =>
      cases hpc : t.pc <;> rw [hpc] at he
      case evictTry => exact (h1 _ hpc).elim
      case evictDiscard => exact (h2 _ hpc).elim
      case evictDrop => exact (h3 _ hpc).elim
      case evictLock => exact (h4 _ hpc).elim
      case evictSend => exact (h5 _ hpc).elim
      case evictRestore => exact (h6 hpc).elim
      case evictSpin => exact (h7 hpc).elim
      case evictEnd => exact (h8 hpc).elim
      all_goals cases he

namespace Follows

variable {t t' : Thread} {τ : ThreadId} {addr addr' : LineRef → Block} {c c' : Block → Copy}

/-- What others do to the copies does not matter to a thread. -/
theorem frame (hf : t.Follows τ addr c) (hc : ∀ b, (c b).owner = some τ → (c b).Yields (c' b))
    (ha : ∀ r, t.stake.Owns r → addr' r = addr r) : t.Follows τ addr' c' where
  job r k hr := by
    obtain ⟨haddr, hk, hclaim⟩ := hf.job r k hr
    refine ⟨?_, hk, ?_⟩
    · rw [ha r (.inl ⟨k.toStatus, by rw [stake, Pc.claim_eq, hr]; rfl⟩), haddr]
    · have howner : (c t.addr).owner = some τ := by
        obtain ⟨q, hq, hτ, -, -⟩ := hclaim
        rw [hq]
        exact congrArg some hτ
      exact hclaim.yields (hc _ howner) fun q q' hw hfl => Pc.Asks.yields hw hfl
  next hn := by
    obtain ⟨st, hst⟩ := hf.next hn
    rw [ha t.next (.inr (.inl (by rw [stake, if_pos hn])))]
    have hy := hc (addr t.next) (by rw [hst]; rfl)
    rw [hst] at hy
    revert hy
    generalize c' (addr t.next) = x
    intro hy
    cases hy <;> exact ⟨_, rfl⟩
  cur := by
    rcases hf.cur.owner with ⟨howner, p, hp⟩ | hall
    · rw [ha t.cur (.inr (.inr ⟨p, hp⟩))]
      exact hf.cur.yields (hc _ howner)
    · exact hall _ _
  stash m hm := by
    obtain ⟨b, q, hb, hq, hτ, hk, hw⟩ := hf.stash m hm
    have hy := hc b (by rw [hq]; exact congrArg some hτ)
    rw [hq] at hy
    revert hy
    generalize hx : c' b = x
    intro hy
    cases hy with
    | refl => exact ⟨b, q, hb, hx, hτ, hk, hw⟩
    | claimed hτ' hk' hw' hf' => exact ⟨b, _, hb, hx, hτ'.trans hτ, hk' ▸ hk, hw'.trans hw⟩

/-- A step of the thread itself, with which the copy of block `b` becomes `x`. -/
theorem set (hf : t.Follows τ addr c) {b : Block} {x : Copy}
    (hjob : ∀ r k, t'.pc.job = some (r, k) → addr r = t'.addr ∧ k.isEvict = false ∧
      (Function.update c b x t'.addr).ClaimedBy τ k t'.pc.Asks)
    (hnext : t'.startNext → t.startNext ∧ t'.next = t.next ∧ addr t.next ≠ b)
    (hcur : t'.Evicts τ (addr t'.cur) (Function.update c b x (addr t'.cur)))
    (hstash : ∀ m, t'.stash = some m → t.stash = some m ∧
      ∀ q, c b = .claimed q → q.kind.isEvict → q.await ≠ .answered m.mtype) :
    t'.Follows τ addr (Function.update c b x) where
  job := hjob
  next hn := by
    obtain ⟨hn', he, hne⟩ := hnext hn
    rw [he, Function.update_of_ne hne]
    exact hf.next hn'
  cur := hcur
  stash m hm := by
    obtain ⟨hm', hno⟩ := hstash m hm
    obtain ⟨d, q, hd, hq, hτ, hk, hw⟩ := hf.stash m hm'
    refine ⟨d, q, hd, ?_, hτ, hk, hw⟩
    have hne : d ≠ b := by
      rintro rfl
      exact hno q hq hk hw
    rw [Function.update_of_ne hne, hq]

/-- A step of the thread itself that leaves the copies as they are. -/
theorem still (hf : t.Follows τ addr c)
    (hjob : ∀ r k, t'.pc.job = some (r, k) → addr r = t'.addr ∧ k.isEvict = false ∧
      (c t'.addr).ClaimedBy τ k t'.pc.Asks)
    (hnext : t'.startNext → t.startNext ∧ t'.next = t.next)
    (hcur : t'.Evicts τ (addr t'.cur) (c (addr t'.cur)))
    (hstash : ∀ m, t'.stash = some m → t.stash = some m) : t'.Follows τ addr c where
  job := hjob
  next hn := by
    obtain ⟨hn', he⟩ := hnext hn
    rw [he]
    exact hf.next hn'
  cur := hcur
  stash m hm := hf.stash m (hstash m hm)

end Follows

end Thread

/-! ## The relation -/

namespace Host

/-- The block that a line keeps, or kept. -/
def address (h : Host) (r : LineRef) : Block :=
  (h.lines r).addr

/-- The copies that the lines of a node keep. -/
structure Tracks (h : Host) (c : Block → Copy) : Prop where
  line : ∀ r, h.status r ≠ .preserved → (c (h.address r)).At r.shadow (h.lines r)
  found : ∀ b, c b ≠ .absent → ∃ r, h.status r ≠ .preserved ∧ h.address r = b
  thread : ∀ τ, (h.threads τ).Follows τ h.address c

variable {h h' : Host} {c c' : Block → Copy} {τ : ThreadId} {t' : Thread} {r : LineRef}

/-- A block is in one line only. -/
theorem Addressed.unique (ha : h.Addressed) (ht : h.Tagged) {r r' : LineRef}
    (hr : h.status r ≠ .preserved) (hr' : h.status r' ≠ .preserved)
    (he : h.address r = h.address r') : r = r' := by
  refine ht.unique r r' hr hr' ?_
  rw [ha r hr, ha r' hr']
  exact congrArg Block.getTag he

/-- A line that keeps nothing of the tag's block has no copy of it. -/
theorem Tracks.absent (hk : h.Tracks c) (ha : h.Addressed) {b : Block}
    (hno : ∀ r, (h.lines r).holds b.getTag = false) : c b = .absent := by
  by_contra hne
  obtain ⟨r, hr, hb⟩ := hk.found b hne
  have := hno r
  rw [holds_iff.mpr ⟨hr, (ha r hr).trans (congrArg Block.getTag hb)⟩] at this
  cases this

/-- A step of thread `τ`, as far as the others are concerned. -/
theorem Tracks.of_thread (hk : h.Tracks c) (hh : h.Owned)
    (hth : h'.threads = Function.update h.threads τ t')
    (hline : ∀ r, h'.status r ≠ .preserved → (c' (h'.address r)).At r.shadow (h'.lines r))
    (hfound : ∀ b, c' b ≠ .absent → ∃ r, h'.status r ≠ .preserved ∧ h'.address r = b)
    (hother : ∀ b σ, σ ≠ τ → (c b).owner = some σ → c' b = c b)
    (haddr : ∀ r, h'.address r = h.address r ∨ h.Loose r)
    (hfol : t'.Follows τ h'.address c') : h'.Tracks c' where
  line := hline
  found := hfound
  thread σ := by
    rw [hth]
    rcases eq_or_ne σ τ with rfl | hne
    · rw [Function.update_self]
      exact hfol
    · rw [Function.update_of_ne hne]
      refine (hk.thread σ).frame (fun b hb => ?_) fun r ho => ?_
      · rw [hother b σ hne hb]
        exact .refl _
      · exact (haddr r).resolve_right (hh.not_loose ho)

/-- A step of thread `τ` that leaves the flags, the statuses and the addresses of all lines. -/
theorem Tracks.still (hk : h.Tracks c) (hh : h.Owned)
    (hth : h'.threads = Function.update h.threads τ t')
    (hlines : ∀ r, (h'.lines r).flag = (h.lines r).flag ∧ (h'.lines r).status = (h.lines r).status ∧
      (h'.lines r).addr = (h.lines r).addr)
    (hfol : t'.Follows τ h.address c) : h'.Tracks c := by
  have haddr : h'.address = h.address := funext fun r => (hlines r).2.2
  have hst : ∀ r, h'.status r = h.status r := fun r => (hlines r).2.1
  refine hk.of_thread hh hth (fun r hr => ?_) (fun b hb => ?_) (fun _ _ _ _ => rfl)
    (fun r => .inl (by rw [haddr])) (by rw [haddr]; exact hfol)
  · have hat := hk.line r (by rw [← hst]; exact hr)
    rw [haddr]
    revert hat
    generalize c (h.address r) = x
    cases x with
    | absent => exact id
    | resting => exact fun hat => ⟨(hlines r).1.trans hat.1, (hlines r).2.1.trans hat.2.1, hat.2.2⟩
    | claimed => exact fun hat => ⟨(hlines r).1.trans hat.1, (hlines r).2.1.trans hat.2.1, hat.2.2⟩
  · obtain ⟨r, hr, hb⟩ := hk.found b hb
    exact ⟨r, by rwa [hst], by rw [haddr]; exact hb⟩

/-- The copy in line `r` becomes `x`; all other lines stay as they are. -/
theorem Tracks.lines {l : LineInfo} {x : Copy} (hk : h.Tracks c) (ht : h.Tagged) (ha : h.Addressed)
    (hlines : h'.lines = Function.update h.lines r l) (hfull : h.status r ≠ .preserved)
    (haddr : l.addr = h.address r) (hat : l.status ≠ .preserved → x.At r.shadow l)
    (hx : l.status ≠ .preserved ∨ x = .absent) :
    h'.address = h.address ∧
      (∀ y, h'.status y ≠ .preserved →
        (Function.update c (h.address r) x (h.address y)).At y.shadow (h'.lines y)) ∧
      ∀ b, Function.update c (h.address r) x b ≠ .absent →
        ∃ y, h'.status y ≠ .preserved ∧ h.address y = b := by
  have hself : h'.lines r = l := by rw [hlines, Function.update_self]
  have hrest : ∀ {y}, y ≠ r → h'.lines y = h.lines y := fun hy => by
    rw [hlines, Function.update_of_ne hy]
  refine ⟨?_, fun y hy => ?_, fun b hb => ?_⟩
  · funext y
    rcases eq_or_ne y r with rfl | hne
    · rw [address, hself, haddr]
    · rw [address, hrest hne, address]
  · rcases eq_or_ne y r with rfl | hne
    · rw [Function.update_self, hself]
      exact hat (by rw [← hself]; exact hy)
    · have hy' : h.status y ≠ .preserved := by rwa [status, hrest hne] at hy
      have hb : h.address y ≠ h.address r := fun he => hne (ha.unique ht hy' hfull he)
      rw [Function.update_of_ne hb, hrest hne]
      exact hk.line y hy'
  · rcases eq_or_ne b (h.address r) with rfl | hne
    · rw [Function.update_self] at hb
      exact ⟨r, by rw [status, hself]; exact hx.resolve_right hb, rfl⟩
    · rw [Function.update_of_ne hne] at hb
      obtain ⟨y, hy, rfl⟩ := hk.found b hb
      have hyr : y ≠ r := fun he => hne (congrArg h.address he)
      exact ⟨y, by rwa [status, hrest hyr], rfl⟩

/-- A step of thread `τ` that turns the copy in line `r`, which is its own or nobody's, into `x`. -/
theorem Tracks.turn {l : LineInfo} {x : Copy} (hk : h.Tracks c) (hh : h.Owned) (ht : h.Tagged)
    (ha : h.Addressed) (hth : h'.threads = Function.update h.threads τ t')
    (hlines : h'.lines = Function.update h.lines r l) (hfull : h.status r ≠ .preserved)
    (haddr : l.addr = h.address r) (hat : l.status ≠ .preserved → x.At r.shadow l)
    (hx : l.status ≠ .preserved ∨ x = .absent)
    (howner : ∀ σ, (c (h.address r)).owner = some σ → σ = τ)
    (hfol : t'.Follows τ h.address (Function.update c (h.address r) x)) :
    h'.Tracks (Function.update c (h.address r) x) := by
  obtain ⟨hall, hline, hfound⟩ := hk.lines ht ha hlines hfull haddr hat hx
  refine hk.of_thread hh hth (by rw [hall]; exact hline) (by rw [hall]; exact hfound)
    (fun b σ hσ hb => ?_) (fun y => .inl (by rw [hall])) (by rw [hall]; exact hfol)
  have hne : b ≠ h.address r := by
    rintro rfl
    exact hσ (howner σ hb)
  rw [Function.update_of_ne hne]

/-- A step that leaves the threads, and with which the copy in line `r` yields to `x`. -/
theorem Tracks.yield {l : LineInfo} {x : Copy} (hk : h.Tracks c) (ht : h.Tagged)
    (ha : h.Addressed) (hth : h'.threads = h.threads)
    (hlines : h'.lines = Function.update h.lines r l) (hfull : h.status r ≠ .preserved)
    (haddr : l.addr = h.address r) (hat : x.At r.shadow l) (hl : l.status ≠ .preserved)
    (hx : (c (h.address r)).Yields x) : h'.Tracks (Function.update c (h.address r) x) := by
  obtain ⟨hall, hline, hfound⟩ := hk.lines ht ha hlines hfull haddr (fun _ => hat) (.inl hl)
  refine ⟨by rw [hall]; exact hline, by rw [hall]; exact hfound, fun τ => ?_⟩
  rw [hth, hall]
  refine (hk.thread τ).frame (fun b _ => ?_) fun _ _ => rfl
  rcases eq_or_ne b (h.address r) with rfl | hne
  · rw [Function.update_self]
    exact hx
  · rw [Function.update_of_ne hne]
    exact .refl _

end Host

end Ting
