/-
# `Ting.Protocol.Outcomes` — what comes back for a request

The answers that a thread has taken under a request, from the first to the last.  While its copy
waits, they are the halves that the copy remembers; once it waits no more, they make one outcome
that the request can have, and nothing of it is left in the fabric.
-/
import Ting.Protocol.Answers

namespace Ting

open Total

/-! ## Outcomes -/

namespace RawMessageType

/-- Whether the answers `ts`, in this order, make one outcome of a request of type `k`. -/
def outcomeOf (k : RawMessageType) : List RawMessageType → Bool
  | [t] => k.isReplyTo t && t.notShared
  | [dir2AppWriteMissShareddata, dir2AppWriteMissSharedAggackAck] => k = rWriteMiss
  | [dir2AppWriteMissSharedAggackAck, dir2AppWriteMissShareddata] => k = rWriteMiss
  | _ => false

/-- The half of the answer to a write miss on a shared block that has come before the other. -/
def halves : Bool × Bool → List RawMessageType
  | (true, _) => [dir2AppWriteMissShareddata]
  | (false, true) => [dir2AppWriteMissSharedAggackAck]
  | (false, false) => []

/-- What the types of the answers to a request say as long as its copy remembers `w`. -/
def accounts (k : RawMessageType) (w : Option (Bool × Bool)) (ts : List RawMessageType) : Prop :=
  match w with
  | some w => ts = halves w
  | none => k.outcomeOf ts

/-- One more answer is the other half, or the whole. -/
theorem accounts_advance {k t : RawMessageType} {hasData granted : Bool} (hr : k.isReplyTo t)
    (ht : t.isAnswer) (hs : t.isShareddata → hasData = false)
    (ho : t.isOutcome → granted = false ∧ (t.isMissAggack = false → hasData = false)) :
    k.accounts (if t.isShareddata then if granted then none else some (true, false)
      else if t.isMissAggack then if hasData then none else some (false, true) else none)
      (halves (hasData, granted) ++ [t]) := by
  cases hsd : t.isShareddata
  · rw [isOutcome, ht, hsd] at ho
    obtain ⟨rfl, hwhole⟩ := ho rfl
    cases hma : t.isMissAggack
    · rw [hwhole hma]
      change (k.isReplyTo t && t.notShared) = true
      rw [hr, notShared, hsd, hma]
      rfl
    · have he : t = .dir2AppWriteMissSharedAggackAck := by
        revert hma
        generalize t = t
        revert t
        decide
      subst he
      cases hasData
      · rfl
      · exact hr
  · have he : t = .dir2AppWriteMissShareddata := by
      revert hsd
      generalize t = t
      revert t
      decide
    subst he
    cases hs rfl
    cases granted
    · rfl
    · exact hr

end RawMessageType

/-- The tickets are counted where requests enter. -/
theorem Fabric.step_nextId {qNum : ℕ} {s s' : Fabric} {a : FabricAction} (ha : a.isInternal)
    (hs : s.step qNum a = some s') : s'.nextId = s.nextId := by
  have hobs : ∀ b p t, (s.observe b p t).nextId = s.nextId := by
    intro b p t
    unfold observe
    split <;> rfl
  cases a with
  | inject | pop => cases ha
  | dirTick i =>
      obtain ⟨p, -, hs⟩ := Option.bind_eq_some_iff.mp hs
      split at hs <;> cases hs
      exact hobs _ _ _
  | ccTick i =>
      obtain ⟨p, -, hs⟩ := Option.bind_eq_some_iff.mp hs
      split at hs <;> cases hs
      rfl
  | dirCopy | ccCopy =>
      simp only [step] at hs
      split at hs <;> cases hs
      rfl

namespace Protocol

variable {qNum : ℕ} {p p' : Protocol}

/-! ## The books -/

/-- The books of the requests: who may still get an answer, and what has come so far. -/
structure Accounted (p : Protocol) : Prop where
  id : ∀ i o, p.issued i = some o → o.ticket.id = i ∧ i < p.fabric.nextId
  waiting : ∀ n b o w, (p.copies n b).awaits o = some w → p.issued o.ticket.id = some o
  unasked : ∀ i, p.issued i = none → p.replies i = []
  taken : ∀ i o, p.issued i = some o →
    ∀ x ∈ p.replies i, x.node = o.node ∧ x.thread = o.header.reqClineAppThreadID
  sum : ∀ i o, p.issued i = some o → o.ticket.kind.accounts
    ((p.copies o.node o.block).awaits o) ((p.replies i).map (·.mtype))

/-- A step with which nobody asks and nobody is answered. -/
theorem Accounted.frame (h : p.Accounted) (hid : p'.fabric.nextId = p.fabric.nextId)
    (hi : p'.issued = p.issued) (hr : p'.replies = p.replies)
    (hc : ∀ n b o, (p'.copies n b).awaits o = (p.copies n b).awaits o) : p'.Accounted where
  id := by rw [hi, hid]; exact h.id
  waiting n b o w hw := by rw [hi]; exact h.waiting n b o w (by rw [← hc]; exact hw)
  unasked := by rw [hi, hr]; exact h.unasked
  taken := by rw [hi, hr]; exact h.taken
  sum i o ho := by rw [hr, hc]; exact h.sum i o (by rw [← hi]; exact ho)

/-- What copies wait for after one of them was changed. -/
theorem awaits_setCopy {n k : NodeId} {b d : Block} {c : Copy} {o : Origin}
    (h : c.awaits o = (p.copies n b).awaits o) :
    ((p.setCopy n b c).copies k d).awaits o = (p.copies k d).awaits o := by
  rw [setCopy_copies]
  split
  next hk =>
    obtain ⟨rfl, rfl⟩ := hk
    exact h
  next => rfl

/-- A copy waits only for what was asked for it. -/
theorem awaits_home (h : (protocol qNum).Reachable p) {n : NodeId} {b : Block} {o : Origin}
    {w : Bool × Bool} (hw : (p.copies n b).awaits o = some w) : o.node = n ∧ o.block = b := by
  obtain ⟨q, hq, hwait⟩ := Copy.awaits_eq_some.mp hw
  have hasked := asked h n b
  rw [hq] at hasked
  obtain ⟨hn, hb, -⟩ := Claim.Asked.origin (q := q) hasked _ _ _ hwait
  exact ⟨hn, hb⟩

theorem Accounted.request {m : CtrlMsg} {c : Copy} (h : p.Accounted)
    (hc : (p.copies m.reqClineNodeID m.block).ask m.reqClineAppThreadID m.mtype (p.origin m)
      = some c) : (p.afterRequest m c).Accounted := by
  have hnew : p.issued p.fabric.nextId = none := by
    by_contra hne
    obtain ⟨o, ho⟩ := Option.ne_none_iff_exists'.mp hne
    exact (h.id _ o ho).2.false
  have hold : ∀ {i o}, p.issued i = some o → i ≠ p.fabric.nextId := by
    rintro i o ho rfl
    rw [hnew] at ho
    cases ho
  have hupd : (p.afterRequest m c).issued
      = Function.update p.issued p.fabric.nextId (some (p.origin m)) := rfl
  have hother : ∀ {i o}, p.issued i = some o →
      (p.afterRequest m c).issued i = some o := fun ho => by
    rw [hupd, Function.update_of_ne (hold ho)]
    exact ho
  have hcases : ∀ {i o}, (p.afterRequest m c).issued i = some o →
      i = p.fabric.nextId ∧ o = p.origin m ∨ p.issued i = some o := by
    intro i o ho
    by_cases hi : i = p.fabric.nextId
    · rw [hupd, hi, Function.update_self] at ho
      exact .inl ⟨hi, (Option.some.inj ho).symm⟩
    · rw [hupd, Function.update_of_ne hi] at ho
      exact .inr ho
  -- the copies await what they did, and the new request
  have hawait : ∀ n b o, ((p.afterRequest m c).copies n b).awaits o
      = if n = m.reqClineNodeID ∧ b = m.block ∧ o = p.origin m then some (false, false)
        else (p.copies n b).awaits o := by
    intro n b o
    obtain ⟨hnone, hask⟩ := Copy.ask_awaits (o := o) hc
    change ((p.setCopy _ _ c).copies n b).awaits o = _
    rw [setCopy_copies]
    split
    next hk =>
      obtain ⟨rfl, rfl⟩ := hk
      rw [hask]
      by_cases ho : o = p.origin m
      · rw [if_pos ho.symm, if_pos ⟨rfl, rfl, ho⟩]
      · rw [if_neg fun he => ho he.symm, if_neg fun he => ho he.2.2, hnone]
    next hk => exact (if_neg fun he => hk ⟨he.1, he.2.1⟩).symm
  refine ⟨fun i o ho => ?_, fun n b o w hw => ?_, fun i hi => ?_, fun i o ho => ?_,
    fun i o ho => ?_⟩
  · rcases hcases ho with ⟨rfl, rfl⟩ | ho
    · exact ⟨rfl, Nat.lt_succ_self _⟩
    · exact ⟨(h.id i o ho).1, (h.id i o ho).2.trans (Nat.lt_succ_self _)⟩
  · rw [hawait] at hw
    split at hw
    next he =>
      obtain ⟨-, -, rfl⟩ := he
      exact Function.update_self ..
    next => exact hother (h.waiting n b o w hw)
  · refine h.unasked i ?_
    by_contra hne
    obtain ⟨o, ho⟩ := Option.ne_none_iff_exists'.mp hne
    rw [hother ho] at hi
    cases hi
  · change ∀ x ∈ p.replies i, _
    rcases hcases ho with ⟨rfl, rfl⟩ | ho
    · rw [h.unasked _ hnew]
      exact fun x hx => absurd hx List.not_mem_nil
    · exact h.taken i o ho
  · change o.ticket.kind.accounts _ ((p.replies i).map _)
    rw [hawait]
    rcases hcases ho with ⟨rfl, rfl⟩ | ho
    · rw [if_pos ⟨rfl, rfl, rfl⟩, h.unasked _ hnew]
      rfl
    · rw [if_neg ?_]
      · exact h.sum i o ho
      · rintro ⟨-, -, rfl⟩
        exact hold ho (h.id i _ ho).1.symm

theorem Accounted.receive (h : p.Accounted) (hp : (protocol qNum).Reachable p) {n : NodeId}
    {τ : ThreadId} {i : ℕ} {k : Packet} (hf : p.fabric.flights[i]? = some ⟨.app n τ, k⟩) :
    (p.afterReceive n τ i k).Accounted := by
  have hmem := List.mem_of_getElem? hf
  obtain ⟨q, hasData, granted, -, hτ, hq, hw, hk, hreply, -, hs, ho⟩ := receives hp hmem
  have hroute := (fabricInv hp).routed _ hmem
  have hissued := h.waiting _ _ _ _ hw
  obtain ⟨hn, hb⟩ := awaits_home hp hw
  have hself : k.origin.header.reqClineAppThreadID = τ := hroute.2.2
  have hawait : ∀ m b o, o ≠ k.origin →
      ((p.afterReceive n τ i k).copies m b).awaits o = (p.copies m b).awaits o :=
    fun m b o hne => awaits_setCopy (Copy.advance_awaits_ne hne.symm)
  have hold : ∀ {j}, j ≠ k.ticket.id → (p.afterReceive n τ i k).replies j = p.replies j :=
    fun hj => Function.update_of_ne hj ..
  have hnew : (p.afterReceive n τ i k).replies k.ticket.id
      = p.replies k.ticket.id ++ [⟨n, τ, k.msg.mtype⟩] := Function.update_self ..
  -- the only request under the ticket of `k`
  have hone : ∀ {o}, p.issued k.ticket.id = some o → o = k.origin := fun ho =>
    (Option.some.inj (hissued.symm.trans ho)).symm
  refine ⟨h.id, fun m b o w hw' => ?_, fun j hj => ?_, fun j o ho' => ?_, fun j o ho' => ?_⟩
  · by_cases hne : o = k.origin
    · rw [hne]
      exact hissued
    · rw [hawait m b o hne] at hw'
      exact h.waiting m b o w hw'
  · by_cases hj' : j = k.ticket.id
    · rw [hj', show (p.afterReceive n τ i k).issued = p.issued from rfl,
        show p.issued k.ticket.id = some k.origin from hissued] at hj
      cases hj
    · rw [hold hj']
      exact h.unasked j hj
  · by_cases hj' : j = k.ticket.id
    · subst hj'
      cases hone ho'
      rw [hnew]
      intro x hx
      rcases List.mem_append.mp hx with hx | hx
      · exact h.taken _ _ hissued x hx
      · cases List.mem_singleton.mp hx
        exact ⟨hn.symm, hself.symm⟩
    · rw [hold hj']
      exact h.taken j o ho'
  · by_cases hj' : j = k.ticket.id
    · subst hj'
      cases hone ho'
      have hsum := h.sum _ _ hissued
      rw [show k.origin.node = n from hn, show k.origin.block = k.msg.block from rfl, hw] at hsum
      rw [hnew, List.map_append, show (p.replies k.ticket.id).map (·.mtype) = _ from hsum]
      change k.ticket.kind.accounts (((p.setCopy n k.msg.block _).copies _ _).awaits k.origin) _
      rw [setCopy_copies, if_pos ⟨hn, rfl⟩, Copy.awaits_advance hw]
      exact RawMessageType.accounts_advance (hk ▸ hreply) hroute.1 hs ho
    · rw [hold hj', hawait]
      · exact h.sum j o ho'
      · rintro rfl
        exact hj' (h.id j _ ho').1.symm

/-- The books are right in every state. -/
theorem accounted (h : (protocol qNum).Reachable p) : p.Accounted := by
  refine invariant (P := Accounted) (fun p hi => ?_) (fun p a p' hr ih hs => ?_) h
  · refine ⟨fun i o ho => ?_, fun n b o w hw => ?_, fun i _ => hi.replies i, fun i o ho => ?_,
      fun i o ho => ?_⟩
    · rw [hi.issued] at ho
      cases ho
    · rw [hi.copies] at hw
      cases hw
    all_goals
      rw [hi.issued] at ho
      cases ho
  cases hs with
  | internal ha hf => exact ih.frame (Fabric.step_nextId ha hf) rfl rfl fun _ _ _ => rfl
  | turn ht =>
      exact ih.frame rfl rfl rfl fun n b o => awaits_setCopy (ht.awaits.1.trans ht.awaits.2.symm)
  | request hm ht hc => exact ih.request hc
  | receive hi hf => exact ih.receive hr hf
  | take hn hi hf => exact ih.frame rfl rfl rfl fun _ _ _ => rfl
  | apply hh hc =>
      exact ih.frame rfl rfl rfl fun n b o =>
        awaits_setCopy (Copy.obey_awaits hc (asked hr _ _)).2

/-! ## What is left in the fabric -/

/-- When a copy waits for nothing under `o`, the fabric has no answer to it. -/
theorem no_answer (h : (protocol qNum).Reachable p) {o : Origin}
    (hw : (p.copies o.node o.block).awaits o = none) {f : Flight} (hf : f ∈ p.fabric.flights)
    (ho : f.packet.origin = o) : f.packet.msg.mtype.isAnswer = false := by
  subst ho
  have htokens := tokens h f.packet.origin
  have hdata := data h f.packet.origin
  have hdue := dataDue_le p.fabric f.packet.origin
  rw [Ledger.value_add] at hdue
  simp only [Copy.waits, Copy.hasData, Copy.hasGrant, hw, Option.elim_none] at htokens hdata
  by_contra hans
  rw [Bool.not_eq_false] at hans
  have hstem : f.packet.stems f.packet.origin = 1 := ind_of rfl
  cases hs : f.packet.msg.mtype.isShareddata
  · have hle := (Ledger.answering f.packet.origin).flight_le hf
    have hone : (Ledger.answering f.packet.origin).flight f = f.packet.stems f.packet.origin :=
      if_pos (show f.packet.msg.mtype.isOutcome by rw [RawMessageType.isOutcome, hans, hs]; rfl)
    omega
  · have hle := (Ledger.descending Flight.shareddata f.packet.origin).flight_le hf
    have hone : (Ledger.descending Flight.shareddata f.packet.origin).flight f
        = f.packet.stems f.packet.origin := if_pos hs
    omega

/-- While a copy waits under `o`, its outcome is still to come, and only once; after the grant
of a write miss on a shared block it is the data. -/
theorem under_way (h : (protocol qNum).Reachable p) {o : Origin} {w : Bool × Bool}
    (hw : (p.copies o.node o.block).awaits o = some w) :
    (Ledger.seeking o).value p.fabric + (Ledger.answering o).value p.fabric = (!w.2).toNat ∧
      (w.2 → (Ledger.descending Flight.shareddata o).value p.fabric = 1) := by
  have htokens := tokens h o
  have hdata := data h o
  have hdue := dataDue_le p.fabric o
  rw [Ledger.value_add] at hdue
  simp only [Copy.waits, Copy.hasData, Copy.hasGrant, hw, Option.elim_some] at htokens hdata
  refine ⟨htokens, fun hg => ?_⟩
  obtain ⟨q, hq, hwait⟩ := Copy.awaits_eq_some.mp hw
  have hasked := asked h o.node o.block
  rw [hq] at hasked
  have hboth := (Claim.Asked.origin (q := q) hasked _ _ _ hwait).2.2.2.2.2
  rw [hg, Bool.and_true] at hboth
  rw [hg] at htokens hdata
  rw [hboth] at hdata
  change _ = 0 at htokens
  change _ + 0 = _ + 1 at hdata
  omega

end Protocol

end Ting
