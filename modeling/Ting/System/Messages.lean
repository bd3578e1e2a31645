/-
# `Ting.System.Messages` — what messages do to the copies

A thread that sends turns its claim into one that waits, a thread that receives learns what the
answer says, and an agent does to a line what the protocol lets it do to the copy.
-/
import Ting.System.Turns
import Ting.Protocol.Rights

namespace Ting

/-! ## Answers -/

/-- The switch of a miss or an upgrade takes every answer that its request can have, and goes
where the answer leads. -/
theorem replySwitch_asks {r : LineRef} {q : Claim} {o : Origin} {hasData granted : Bool}
    {t : RawMessageType} (hk : q.kind.isEvict = false) (hr : q.kind.isReplyTo t)
    (hs : t.isShareddata → hasData = false)
    (ho : t.isOutcome → granted = false ∧ (t.isMissAggack = false → hasData = false)) :
    (replySwitch r q.kind hasData granted t).job = some (r, q.kind) ∧
      (replySwitch r q.kind hasData granted t).evicts = false ∧
      (replySwitch r q.kind hasData granted t).Asks
        { q with await := .learn o hasData granted t } := by
  obtain ⟨τ, k, d, f, w⟩ := q
  simp only at hk hr ⊢
  cases k with
  | rReadMiss =>
      cases t with
      | dir2AppReadMissAckdata | agent2AppReadMissDirtyAckdata | dir2AppMCheckFail =>
          exact ⟨rfl, rfl, _, rfl, rfl, nofun⟩
      | dir2AppBitmapCheckFail => exact ⟨rfl, rfl, rfl⟩
      | _ => cases hr
  | rWriteMiss =>
      cases t with
      | dir2AppWriteMissAckdata | agent2AppWriteMissDirtyAckdata | dir2AppMCheckFail =>
          exact ⟨rfl, rfl, _, rfl, rfl, nofun⟩
      | dir2AppBitmapCheckFail => exact ⟨rfl, rfl, rfl⟩
      | dir2AppWriteMissShareddata =>
          obtain rfl := hs rfl
          cases granted
          · exact ⟨rfl, rfl, o, rfl⟩
          · exact ⟨rfl, rfl, _, rfl, rfl, nofun⟩
      | dir2AppWriteMissSharedAggackAck =>
          cases hasData
          · exact ⟨rfl, rfl, o, rfl⟩
          · exact ⟨rfl, rfl, _, rfl, rfl, nofun⟩
      | _ => cases hr
  | rWriteShared =>
      cases t with
      | dir2AppWriteSharedOnlyack | dir2AppWriteSharedNotonlyAggackAck | dir2AppMCheckFail =>
          exact ⟨rfl, rfl, _, rfl, rfl, nofun⟩
      | dir2AppBitmapCheckFail => exact ⟨rfl, rfl, rfl⟩
      | _ => cases hr
  | rEvictShared | rEvictDirty => cases hk
  | _ => cases t <;> cases hr

/-- An eviction is answered at once. -/
theorem Await.learn_evict {k t : RawMessageType} {o : Origin} {hasData granted : Bool}
    (hk : k.isEvict) (hr : k.isReplyTo t) : learn o hasData granted t = .answered t := by
  have hclass : ∀ k t : RawMessageType, k.isEvict = true → k.isReplyTo t = true →
      t.isShareddata = false ∧ t.isMissAggack = false := by decide
  exact learn_other (hclass k t hk hr).1 (hclass k t hk hr).2

namespace Host

variable {h h' : Host} {c : Block → Copy} {τ : ThreadId} {t' : Thread}

/-- A thread changes what it knows of the answer to its claim on block `b`. -/
theorem Tracks.answer {b : Block} {q : Claim} {w : Await} (hk : h.Tracks c) (hh : h.Owned)
    (hth : h'.threads = Function.update h.threads τ t') (hlines : h'.lines = h.lines)
    (hq : c b = .claimed q) (hτ : q.thread = τ)
    (hfol : t'.Follows τ h.address (Function.update c b (.claimed { q with await := w }))) :
    h'.Tracks (Function.update c b (.claimed { q with await := w })) := by
  have haddr : h'.address = h.address := funext fun r => congrArg LineInfo.addr (congrFun hlines r)
  have hst : h'.status = h.status := funext fun r => congrArg LineInfo.status (congrFun hlines r)
  refine hk.of_thread hh hth (fun r hr => ?_) (fun d hd => ?_) (fun d σ hσ hd => ?_)
    (fun r => .inl (by rw [haddr])) (by rw [haddr]; exact hfol)
  · rw [hst] at hr
    have hat := hk.line r hr
    rw [haddr, hlines]
    rcases eq_or_ne (h.address r) b with he | hne
    · rw [he, Function.update_self]
      rw [he, hq] at hat
      exact hat
    · rw [Function.update_of_ne hne]
      exact hat
  · rw [hst, haddr]
    refine hk.found d ?_
    rcases eq_or_ne d b with rfl | hne
    · rw [hq]
      exact nofun
    · rwa [Function.update_of_ne hne] at hd
  · refine Function.update_of_ne ?_ _ _
    rintro rfl
    rw [hq] at hd
    exact hσ ((Option.some.inj hd).symm.trans hτ)

/-! ## Sending -/

/-- A thread sends the request of its claim; `o` is the request. -/
theorem Tracks.send {apptNum : ℕ} {ds : List Addr} {junk m : CtrlMsg} (o : Origin)
    (hr : (host apptNum ds).Reachable h) (hk : h.Tracks c) (hm : h.sends τ junk = some m)
    (hs : Stepped h (.send τ junk) h') :
    m.reqClineNodeID = h.nodeID ∧ m.reqClineAppThreadID = τ ∧ m.clineTag = m.block.getTag ∧
      ∃ x, (c m.block).ask τ m.mtype o = some x ∧ h'.Tracks (Function.update c m.block x) := by
  have hh := owned hr
  have ht := tagged hr
  have ha := addressed hr
  have hf := hk.thread τ
  have hask : ∀ {b : Block} {k : RawMessageType},
      (c b).ClaimedBy τ k (fun q => q.await = .unsent) → ∃ q, c b = .claimed q ∧ q.thread = τ ∧
        q.kind = k ∧ q.await = .unsent ∧
        (c b).ask τ k o = some (.claimed { q with await := .waiting o false false }) := by
    rintro b k ⟨q, hq, hτ, hqk, hw⟩
    refine ⟨q, hq, hτ, hqk, hw, ?_⟩
    rw [hq, Copy.ask, if_pos ⟨hτ, hqk, hw⟩]
  unfold sends at hm
  extract_lets t at hm
  cases hs with
  | @evictSend _ w _ hpc =>
      rw [show t.pc = _ from hpc] at hm
      cases hm
      have hstake : (h.threads τ).stake.cur = some ((h.threads τ).cur, .waiting) := by
        rw [Thread.stake, hpc]
        rfl
      obtain ⟨q, hq, hτ, hqk, hw, hask⟩ := hask (hf.cur.unsent (.inr hpc))
      refine ⟨rfl, rfl, rfl, .claimed { q with await := .waiting o false false }, ?_, ?_⟩
      · rename_i kind
        have hkind : kind = t.curType.request := by
          dsimp only [kind]
          cases t.curType <;> rfl
        exact (congrArg (fun k => (c _).ask τ k o) hkind).trans hask
      · refine hk.answer (b := h.address (h.threads τ).cur) (w := .waiting o false false)
          hh rfl rfl hq hτ ?_
        refine hf.set (fun r k hj => ?_) (fun hn => ⟨hn, rfl, hh.next_ne ha ht hn hstake⟩) ?_
          fun m hm => ⟨hm, fun q' hq' _ => ?_⟩
        · dsimp only at hj
          split at hj <;> cases hj
        · refine .of_outstanding ?_ fun _ => ?_
          · dsimp only
            split <;> rfl
          · rw [Function.update_self]
            exact ⟨_, rfl, hτ, hqk, .inl ⟨o, rfl⟩⟩
        · cases hq.symm.trans hq'
          rw [hw]
          rintro ⟨⟩
  | @request _ r kind _ hpc =>
      rw [show t.pc = _ from hpc] at hm
      cases hm
      obtain ⟨haddr, hevict, hclaim⟩ := hf.job r kind (by rw [hpc]; rfl)
      rw [hpc] at hclaim
      obtain ⟨q, hq, hτ, hqk, hw, hask⟩ := hask hclaim
      refine ⟨rfl, rfl, rfl, .claimed { q with await := .waiting o false false }, hask, ?_⟩
      refine hk.answer (b := (h.threads τ).addr) (w := .waiting o false false) hh rfl rfl hq hτ ?_
      refine hf.quiet_set ?_ (by rw [hpc]; rfl) (by rw [hpc]; rintro ⟨⟩)
        (by rw [hpc]; rintro ⟨⟩) rfl (fun st he => ?_) (fun q' he => ?_) fun r' k' hj => ?_
      · exact ⟨rfl, rfl, rfl, rfl, rfl, rfl⟩
      · cases hq.symm.trans he
      · cases hq.symm.trans he
        exact hqk ▸ hevict
      · cases hj
        refine ⟨haddr, hevict, ?_⟩
        rw [Function.update_self]
        exact ⟨_, rfl, hτ, hqk, o, rfl⟩

/-! ## Receiving -/

/-- A thread takes the answer to a claim of its own. -/
theorem Tracks.receive {apptNum : ℕ} {ds : List Addr} {k : Packet} {q : Claim}
    {hasData granted : Bool} (hr : (host apptNum ds).Reachable h) (hk : h.Tracks c)
    (hs : Stepped h (.receive τ k.msg) h') (hq : c k.msg.block = .claimed q) (hτ : q.thread = τ)
    (hw : q.await = .waiting k.origin hasData granted) (hreply : q.kind.isReplyTo k.msg.mtype)
    (htag : k.msg.clineTag = k.msg.block.getTag)
    (hsd : k.msg.mtype.isShareddata → hasData = false)
    (hout : k.msg.mtype.isOutcome → granted = false ∧ (k.msg.mtype.isMissAggack = false →
      hasData = false)) :
    h'.Tracks (Function.update c k.msg.block ((c k.msg.block).advance k)) := by
  have hh := owned hr
  have hf := hk.thread τ
  rw [hq, Copy.advance_waiting hw]
  -- the thread rests on nothing of the copy, unless it waits for just this answer
  have hnext : (h.threads τ).startNext → h.address (h.threads τ).next ≠ k.msg.block := by
    intro hn he
    obtain ⟨st, hst⟩ := hf.next hn
    rw [he, hq] at hst
    cases hst
  have hstash : ∀ m, (h.threads τ).stash = some m → (h.threads τ).stash = some m ∧
      ∀ q', c k.msg.block = .claimed q' → q'.kind.isEvict → q'.await ≠ .answered m.mtype := by
    refine fun m hm => ⟨hm, fun q' hq' _ => ?_⟩
    cases hq.symm.trans hq'
    rw [hw]
    rintro ⟨⟩
  -- an answer with the tag of the line that is being evicted is the answer to the eviction
  have hcur : (h.threads τ).pc.evicts = false → (h.threads τ).pc ≠ .swallow →
      (h.threads τ).pc ≠ .fault → (h.threads τ).waitCur →
      k.msg.clineTag = (h.lines (h.threads τ).cur).tag →
      k.msg.block = h.address (h.threads τ).cur ∧ q.kind = (h.threads τ).curType.request := by
    intro hev hsw hfa hwait hct
    have hne := (hh.fits τ).not_preserved (.inr (.inr ⟨.waiting, by
      rw [Thread.stake, Pc.phase_waiting hev hwait]
      rfl⟩))
    have hb : k.msg.block = h.address (h.threads τ).cur :=
      Block.getTag_inj (htag.symm.trans (hct.trans (addressed hr _ hne)))
    obtain ⟨q', hq', -, hqk, -⟩ := hf.cur.outstanding hev hsw hfa hwait
    rw [← hb, hq] at hq'
    cases hq'
    exact ⟨hb, hqk⟩
  cases hs with
  | @reply _ r kind hd g _ hpc =>
      refine hk.answer (w := Await.learn k.origin hasData granted k.msg.mtype) hh rfl rfl hq hτ ?_
      obtain ⟨haddr, hevict, q', hq', -, hqk, o, hw'⟩ : h.address r = (h.threads τ).addr ∧
          kind.isEvict = false ∧ (c (h.threads τ).addr).ClaimedBy τ kind fun q =>
            ∃ o, q.await = .waiting o hd g := by
        have := hf.job r kind (by rw [hpc]; rfl)
        rwa [hpc] at this
      unfold Thread.onReply
      split
      next heq =>
        have hb : k.msg.block = (h.threads τ).addr := Block.getTag_inj (htag.symm.trans heq)
        rw [← hb, hq] at hq'
        cases hq'
        cases hw.symm.trans hw'
        subst hqk
        obtain ⟨hjob, hev, hasks⟩ := replySwitch_asks (r := r) (o := k.origin) hevict hreply hsd hout
        refine hf.quiet_set ?_ (by rw [hpc]; rfl) (by rw [hpc]; rintro ⟨⟩)
          (by rw [hpc]; rintro ⟨⟩) hev (fun st he => ?_) (fun q' he => ?_) fun r' k' hj => ?_
        · exact ⟨rfl, rfl, rfl, rfl, rfl, rfl⟩
        · cases hq.symm.trans he
        · cases hq.symm.trans he
          exact hevict
        · cases hjob.symm.trans hj
          refine ⟨haddr, hevict, ?_⟩
          rw [← hb, Function.update_self]
          exact ⟨_, rfl, hτ, rfl, hasks⟩
      next hne =>
        have hb : (h.threads τ).addr ≠ k.msg.block := fun he => hne (by rw [htag, ← he]; rfl)
        split
        next hwait =>
          obtain ⟨hb', hqk'⟩ := hcur (by rw [hpc]; rfl) (by rw [hpc]; rintro ⟨⟩)
            (by rw [hpc]; rintro ⟨⟩) hwait.1 hwait.2
          have hlearn : Await.learn k.origin hasData granted k.msg.mtype = .answered k.msg.mtype :=
            Await.learn_evict (hqk' ▸ EvictType.request_isEvict _) hreply
          refine ⟨fun r' k' hj => ?_, fun hn => ?_, ?_, fun m hm => ?_⟩
          · obtain ⟨ha', he', hc⟩ := hf.job r' k' hj
            refine ⟨ha', he', ?_⟩
            rw [Function.update_of_ne hb]
            exact hc
          · rw [Function.update_of_ne (hnext hn)]
            exact hf.next hn
          · refine .of_outstanding (by rw [hpc]; rfl) fun _ => ?_
            rw [← hb', Function.update_self]
            exact ⟨_, rfl, hτ, hqk', .inr ⟨_, rfl, htag, hlearn⟩⟩
          · cases hm
            refine ⟨_, _, htag, Function.update_self .., hτ, ?_, hlearn⟩
            exact hqk' ▸ EvictType.request_isEvict _
        next => exact hf.set (fun _ _ hj => by cases hj) (fun hn => ⟨hn, rfl, hnext hn⟩) trivial hstash
  | evictReply hpc hm =>
      refine hk.answer (w := Await.learn k.origin hasData granted k.msg.mtype) hh rfl rfl hq hτ ?_
      obtain ⟨pc, he, hpcs⟩ := onEvictReply_cases (h.threads τ)
        (h.lines (h.threads τ).cur).tag k.msg
      refine hf.set (fun r' k' hj => ?_) (fun hn => ⟨hn, rfl, hnext hn⟩)
        (Thread.evicts_onEvictReply hm fun htag' => ?_) fun m hm' => ?_
      · rw [he] at hj
        rcases hpcs with rfl | rfl | rfl | rfl <;> cases hj
      · obtain ⟨hb, hqk⟩ := hcur (by rw [hpc]; rfl) (by rw [hpc]; rintro ⟨⟩)
          (by rw [hpc]; rintro ⟨⟩) (waitsWell hr τ true (by rw [hpc]; rfl)) htag'
        show Copy.ClaimedBy _ _ _ (Function.update c _ _ (h.address (h.threads τ).cur))
        rw [← hb, Function.update_self]
        exact ⟨_, rfl, hτ, hqk, Await.learn_evict (hqk ▸ EvictType.request_isEvict _) hreply⟩
      · exact hstash m hm'
  | swallow hpc =>
      refine hk.answer (w := Await.learn k.origin hasData granted k.msg.mtype) hh
        (Function.update_eq_self τ h.threads).symm rfl hq hτ ?_
      refine hf.set (fun r' k' hj => ?_) (fun hn => ⟨hn, rfl, hnext hn⟩) ?_ hstash
      · rw [hpc] at hj
        cases hj
      · unfold Thread.Evicts
        rw [hpc]
        trivial

end Host

/-! ## Agents -/

/-- The order that an agent has in hand and has not carried out. -/
def AgentPc.order : AgentPc → Option CtrlMsg
  | lockSet m | find m _ | findShadow m _ _ | loop m _ => some m
  | _ => none

/-- What an agent does to a line is what it may do to the copy. -/
theorem Copy.At.obeyed {sh : Bool} {l l' : LineInfo} {t : RawMessageType} {x : Copy}
    (hat : x.At sh l) (hne : l.status ≠ .preserved) (ho : LineInfo.Obeyed t l l') :
    l'.addr = l.addr ∧ ∃ y, x.obey t = some y ∧ y.At sh l' ∧ x.Yields y := by
  -- which copies a line in this status can keep
  have hrest : ∀ st : Rest, l.status = st.status → ∃ w, x = .resting st w ∧ sh = w.isSome := by
    intro st hst
    cases x with
    | absent => exact hat.elim
    | resting st' w =>
        obtain ⟨-, hst', hw⟩ := hat
        rw [hst] at hst'
        cases st <;> cases st' <;> first | exact ⟨w, rfl, hw⟩ | cases hst'
    | claimed q =>
        obtain ⟨-, hst', -⟩ := hat
        rw [hst, Claim.status] at hst'
        split at hst'
        · split at hst' <;> cases st <;> cases hst'
        · rcases q.kind.toStatus_eq with hq | hq <;> rw [hq] at hst' <;> cases st <;> cases hst'
  have hclaim : l.status.isTransient → ∃ q, x = .claimed q ∧ l.flag = q.flag ∧
      l.status = q.status ∧ sh = q.kind.isEvict := by
    intro htr
    cases x with
    | absent => exact hat.elim
    | resting st w =>
        rw [hat.2.1] at htr
        cases st <;> cases htr
    | claimed q => exact ⟨q, rfl, hat⟩
  cases ho with
  | invalidated hf hs ht =>
      obtain ⟨w, rfl, hw⟩ := hrest .shared hs
      refine ⟨rfl, .resting .invalid w, ?_, ⟨rfl, rfl, hw⟩, .resting (by rintro ⟨⟩)⟩
      rcases ht with rfl | rfl <;> rfl
  | taken hf hs ht =>
      obtain ⟨w, rfl, hw⟩ := hrest .modified hs
      subst ht
      exact ⟨rfl, .resting .invalid w, rfl, ⟨rfl, rfl, hw⟩, .resting (by rintro ⟨⟩)⟩
  | downgraded hf hs ht =>
      obtain ⟨w, rfl, hw⟩ := hrest .modified hs
      subst ht
      exact ⟨rfl, .resting .shared w, rfl, ⟨rfl, rfl, hw⟩, .resting (by rintro ⟨⟩)⟩
  | flagged hf hs ht =>
      obtain ⟨q, rfl, hq, hst, hsh⟩ := hclaim hs
      have hrevokes : t.revokes := by rcases ht with rfl | rfl | rfl <;> rfl
      refine ⟨rfl, .claimed { q with flag := true }, ?_, ⟨rfl, hst, hsh⟩,
        .claimed rfl rfl rfl fun _ => rfl⟩
      rw [Copy.obey, if_neg (by rw [← hq, hf]; exact Bool.false_ne_true), if_pos hrevokes]
  | downgradedEvict hf hs ht =>
      obtain ⟨q, rfl, hq, hst, hsh⟩ := hclaim (by rw [hs]; rfl)
      subst ht
      have hq' : q.kind.isEvict ∧ q.downgraded = false := by
        rw [hs, Claim.status] at hst
        split at hst
        next hev =>
          split at hst
          next => cases hst
          next hd => exact ⟨hev, (Bool.not_eq_true _).mp hd⟩
        next => rcases q.kind.toStatus_eq with hk | hk <;> rw [hk] at hst <;> cases hst
      obtain ⟨hev, hd⟩ := hq'
      refine ⟨rfl, .claimed { q with downgraded := true }, ?_, ⟨?_, ?_, hsh⟩,
        .claimed rfl rfl rfl fun hx => hx⟩
      · rw [Copy.obey, if_neg (by rw [← hq, hf]; exact Bool.false_ne_true), if_neg (by rintro ⟨⟩), hev, hd]
        rfl
      · exact hf.symm.trans hq
      · rw [Claim.status, if_pos hev]
        rfl
  | gone hs => exact absurd hs hne

namespace Host

variable {h h' : Host} {c : Block → Copy}

/-- A step of an agent that leaves the flags, the statuses and the addresses of all lines. -/
theorem Tracks.agentStill (hk : h.Tracks c) (hh : h.Owned) (hth : h'.threads = h.threads)
    (hlines : ∀ r, (h'.lines r).flag = (h.lines r).flag ∧ (h'.lines r).status = (h.lines r).status ∧
      (h'.lines r).addr = (h.lines r).addr) : h'.Tracks c :=
  hk.still (τ := 0) hh (hth.trans (Function.update_eq_self 0 h.threads).symm) hlines (hk.thread 0)

/-- A set is searched through in vain only if the node has no copy of the block. -/
theorem Tracks.missing {apptNum : ℕ} {ds : List Addr} {b : Block} (hk : h.Tracks c)
    (hr : (host apptNum ds).Reachable h)
    (hno : ∀ r, r.set = calLineSet b.getTag → (h.lines r).holds b.getTag = false) :
    c b = .absent := by
  refine hk.absent (addressed hr) fun r => ?_
  by_cases hset : r.set = calLineSet b.getTag
  · exact hno r hset
  · rw [← Bool.not_eq_true]
    intro hy
    obtain ⟨hy, hyt⟩ := holds_iff.mp hy
    exact hset (((tagged hr).home r hy).trans (by rw [hyt]))

/-- An agent carries out its order on the line that it has found. -/
theorem Tracks.obeyed {apptNum : ℕ} {ds : List Addr} {a : AgentId} {m : CtrlMsg} {l : LineInfo}
    {r : LineRef} (hr : (host apptNum ds).Reachable h) (hk : h.Tracks c)
    (htag : m.clineTag = m.block.getTag) (hpc : h.agents a = .loop m r)
    (ho : LineInfo.Obeyed m.mtype (h.lines r) l) :
    ∃ x, (c m.block).obey m.mtype = some x ∧
      ((h.setLine r l).setAgent a (.unlock m)).Tracks (Function.update c m.block x) := by
  have ht := tagged hr
  have ha := addressed hr
  have hcar := ht.agent a r (by rw [hpc]; rfl)
  rw [hpc] at hcar
  by_cases hp : h.status r = .preserved
  · -- the line is empty, and no other line keeps the block
    have hl : l = h.lines r := by
      cases ho with
      | gone => rfl
      | flagged _ hs => rw [show (h.lines r).status = _ from hp] at hs; cases hs
      | invalidated _ hs | taken _ hs | downgraded _ hs | downgradedEvict _ hs =>
          cases hs.symm.trans hp
    have habsent : c m.block = .absent := by
      refine hk.missing hr fun y hset => ?_
      rw [← htag] at hset ⊢
      rcases eq_or_ne y r with rfl | hne
      · rw [← Bool.not_eq_true]
        exact fun hy => (holds_iff.mp hy).1 hp
      · have := sought hr a y (by rw [hpc]; exact ⟨hset, hne⟩)
        rwa [hpc] at this
    refine ⟨.absent, by rw [habsent]; rfl, ?_⟩
    rw [← habsent, Function.update_eq_self]
    subst hl
    have hlines : (h.setLine r (h.lines r)).lines = h.lines := Function.update_eq_self r h.lines
    refine hk.agentStill (owned hr) rfl fun y => ?_
    rw [setAgent_lines, hlines]
    exact ⟨rfl, rfl, rfl⟩
  · have haddr : h.address r = m.block :=
      Block.getTag_inj ((ha r hp).symm.trans (hcar.tag_eq.trans htag))
    obtain ⟨hl, x, hx, hat, hy⟩ := (hk.line r hp).obeyed hp ho
    rw [← haddr]
    refine ⟨x, hx, hk.yield ht ha rfl rfl hp hl hat (mt ho.full.1.mp hp) hy⟩

/-- A step of an agent: it goes on with its order, or carries it out, or was through with it. -/
theorem Tracks.agent {apptNum : ℕ} {ds : List Addr} {a : AgentId}
    (hr : (host apptNum ds).Reachable h) (hk : h.Tracks c)
    (hm : ∀ m, (h.agents a).order = some m → m.mtype.isOrder ∧ m.clineTag = m.block.getTag)
    (hs : Stepped h (.agent a) h') :
    (h'.agents a).order = (h.agents a).order ∧ h'.Tracks c ∨
      ∃ m x, (h.agents a).order = some m ∧ (h'.agents a).order = none ∧
        ((∃ r, h.agents a = .loop m r) ∨ c m.block = .absent) ∧
        (c m.block).obey m.mtype = some x ∧ h'.Tracks (Function.update c m.block x) := by
  have hh := owned hr
  have ht := tagged hr
  have hself : ∀ {k : Host} {p : AgentPc}, ((k.setAgent a p).agents a).order = p.order := by
    intro k p
    rw [setAgent_agents, Function.update_self]
  have hgo : ∀ {p : AgentPc}, (h'.agents a).order = p.order → p.order = (h.agents a).order →
      h'.threads = h.threads → h'.lines = h.lines →
      (h'.agents a).order = (h.agents a).order ∧ h'.Tracks c :=
    fun hp ho hth hl => ⟨hp.trans ho, hk.agentStill hh hth fun r => by rw [hl]; exact ⟨rfl, rfl, rfl⟩⟩
  cases hs with
  | agentLock hpc | agentSkip hpc | agentFound hpc | agentShadowSkip hpc | agentUnlock hpc =>
      exact .inl (hgo hself (by rw [hpc]; rfl) rfl rfl)
  | @agentLooked _ m line shadow todo hpc hf =>
      have hgo' : ∀ r, afterFind m line shadow = .loop m r →
          ((h.setAgent a (afterFind m line shadow)).agents a).order = (h.agents a).order ∧
            (h.setAgent a (afterFind m line shadow)).Tracks c :=
        fun r he => hgo (hself.trans (by rw [he])) (by rw [hpc]; rfl) rfl rfl
      cases line with
      | some s =>
          cases hf with
          | none => exact .inl (hgo' _ rfl)
          | some hs =>
              refine absurd hs fun hs => ht.not_both (s := s) ?_ hs
              have := ht.agent a ⟨false, calLineSet m.clineTag, s⟩ (by rw [hpc]; rfl)
              rwa [hpc] at this
      | none =>
          cases hf with
          | some hs => exact .inl (hgo' _ rfl)
          | none =>
              -- no line keeps the block
              obtain ⟨-, htag⟩ := hm m (by rw [hpc]; rfl)
              have habsent : c m.block = .absent := by
                refine hk.missing hr fun r hset => ?_
                rw [← htag] at hset ⊢
                have := sought hr a r (by rw [hpc]; exact ⟨hset, .inr List.not_mem_nil⟩)
                rwa [hpc] at this
              refine .inr ⟨m, .absent, by rw [hpc]; rfl, hself, .inr habsent, by rw [habsent]; rfl, ?_⟩
              rw [← habsent, Function.update_eq_self]
              exact hk.agentStill hh rfl fun r => ⟨rfl, rfl, rfl⟩
  | @agentObey _ m r l hpc ho hl =>
      obtain ⟨x, hx, hk'⟩ := hk.obeyed hr (hm m (by rw [hpc]; rfl)).2 hpc hl
      exact .inr ⟨m, x, by rw [hpc]; rfl, hself, .inl ⟨r, hpc⟩, hx, hk'⟩
  | @agentFault _ m r hpc ho =>
      rw [(hm m (by rw [hpc]; rfl)).1] at ho
      cases ho

end Host

end Ting
