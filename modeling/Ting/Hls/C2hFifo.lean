/-
# `Ting.Hls.C2hFifo` — every queue from the card to the host is a queue

Seen from one thread, the manager, the streams and the host are a ring of slots whose producer sees
the head late: what happens for another thread is no step of it.  So everything that is known of
such rings holds for all queues.  What is left to show here is that a manager loses nothing before
it issues a message: the one register in which a message waits is shared by all queues, but it
holds one message at a time, the next in line.
-/
import Ting.Hls.C2hQueue

namespace Ting

open BitRange

/-! ## Slots and owner bytes -/

/-- The messages that a manager is handed have an owner. -/
theorem owner_ctrlMsgToC2hData (m : StructCtrlMsg) (qid : BitVec 11) (junk : StructC2hData) :
    owner (ctrlMsgToC2hData m qid junk).2.data = 1 :=
  slice_setSlice (by omega) (by omega)

theorem Rings.slot_toNat {n : ℕ} (r : Rings n) (q : Fin n) {i : ℕ} (hi : i < maxMsgNumPerQ) :
    (r.slot q i).toNat = (r.addr q).toNat + maxMsgLength * i := by
  have hfits := r.fits q
  rw [slot, BitVec.toNat_add, BitVec.toNat_ofNat, Nat.add_mod_mod, Nat.mod_eq_of_lt]
  simp only [maxMsgLength, maxMsgNumPerQ] at hfits hi ⊢
  omega

/-- Different slots lie at different addresses. -/
theorem Rings.slot_inj {n : ℕ} (r : Rings n) {p q : Fin n} {i j : ℕ} (hi : i < maxMsgNumPerQ)
    (hj : j < maxMsgNumPerQ) (h : r.slot p i = r.slot q j) : p = q ∧ i = j := by
  have hnat := congrArg BitVec.toNat h
  rw [r.slot_toNat p hi, r.slot_toNat q hj] at hnat
  simp only [maxMsgLength, maxMsgNumPerQ] at hnat hi hj
  by_cases hpq : p = q
  · subst hpq
    exact ⟨rfl, by omega⟩
  · have hapart := r.apart p q hpq
    simp only [maxMsgLength, maxMsgNumPerQ] at hapart
    omega

namespace C2hQueues

variable {g : C2hMgr} {r : Rings g.qNum} {s s' : C2hQueues g.qNum}

theorem queueOf_ofNat (q : Fin g.qNum) (d : StructC2hData) :
    queueOf g.qNum { d with ctrlQid := .ofNat 11 q } = some q := by
  have hq : (BitVec.ofNat 11 q.val).toNat % 2 ^ 8 = q.val := by
    have := q.isLt
    have := g.le
    rw [BitVec.toNat_ofNat]
    omega
  have hlt : (BitVec.ofNat 11 q.val).toNat % 2 ^ 8 < g.qNum := hq.symm ▸ q.isLt
  rw [queueOf, dif_pos hlt]
  exact congrArg some (Fin.ext hq)

/-! ## What a manager holds back -/

/-- The messages that wait in the manager or before it, the oldest first. -/
def waitingAll (s : C2hQueues g.qNum) : List StructC2hData :=
  (if s.regRetryFlag then [s.regRetryC2hData] else []) ++ s.c2hDataIn

theorem waitingAll_of_not (h : s.regRetryFlag = false) : s.waitingAll = s.c2hDataIn := by
  rw [waitingAll, h]
  rfl

/-- Those for queue `q`. -/
def waiting (s : C2hQueues g.qNum) (q : Fin g.qNum) : List (BitVec 512) :=
  (s.waitingAll.filter fun d => queueOf g.qNum d = some q).map StructC2hData.data

/-- What holds of a manager, its streams and the indices of all queues. -/
structure Inv (s : C2hQueues g.qNum) : Prop where
  regQTidx : ∀ q, s.regQTidx q < maxMsgNumPerQ
  qHidx : ∀ q, s.qHidx q < maxMsgNumPerQ
  posted : ∀ q, ∀ h ∈ s.posted q, h < maxMsgNumPerQ
  head : ∀ q, (s.rx q).head < maxMsgNumPerQ
  streams : s.c2hCmdOut.length = s.c2hDataOut.length
  owned : ∀ d ∈ s.c2hDataOut, owner d.data ≠ 0
  valid : ∀ d ∈ s.waitingAll, owner d.data ≠ 0 ∧ ∃ q, queueOf g.qNum d = some q
  handed : ∀ q, s.handed q = s.issued q ++ s.waiting q

/-- A manager takes the message that is next in line, from the register or from its stream. -/
theorem multiBufferMgr_eq (r : Rings g.qNum) (s : C2hQueues g.qNum) :
    s.multiBufferMgr g r = match s.waitingAll with
      | [] => some s
      | d :: rest => (queueOf g.qNum d).map fun q =>
          tryIssue g r { s with c2hDataIn := rest } d q := by
  unfold multiBufferMgr waitingAll
  cases hf : s.regRetryFlag with
  | true => rfl
  | false =>
      cases hd : s.c2hDataIn with
      | nil => rfl
      | cons d rest => rfl

/-- The message that a manager takes is issued, or waits for the next tick. -/
theorem tryIssue_eq {d : StructC2hData} {q : Fin g.qNum} (ht : s.regQTidx q < maxMsgNumPerQ)
    (hh : s.qHidx q < maxMsgNumPerQ) : s.tryIssue g r d q =
      if (s.regQTidx q + 1) % maxMsgNumPerQ ≠ s.qHidx q then
        { s with
          regRetryC2hData := d
          c2hCmdOut := s.c2hCmdOut ++
            [⟨r.slot q (s.regQTidx q), .ofNat 32 maxMsgLength, g.pseudoQid⟩]
          c2hDataOut := s.c2hDataOut ++ [{ d with ctrlQid := g.pseudoQid }]
          regQTidx := Function.update s.regQTidx q ((s.regQTidx q + 1) % maxMsgNumPerQ)
          regRetryFlag := false
          issued := Function.update s.issued q (s.issued q ++ [d.data]) }
      else { s with regRetryC2hData := d, regRetryFlag := true } := by
  have hbyte : ∀ i < maxMsgNumPerQ, i % 2 ^ 8 = i := fun i hi =>
    Nat.mod_eq_of_lt (hi.trans (by decide))
  have hplus : (if s.regQTidx q = maxMsgNumPerQ - 1 then 0 else (s.regQTidx q + 1) % 2 ^ 8) =
      (s.regQTidx q + 1) % maxMsgNumPerQ := by
    by_cases hlast : s.regQTidx q = maxMsgNumPerQ - 1
    · rw [if_pos hlast, hlast]
      rfl
    · rw [if_neg hlast]
      simp only [maxMsgNumPerQ] at ht hlast ⊢
      omega
  simp only [tryIssue, hbyte _ ht, hbyte _ hh, hplus]

namespace Inv

theorem of_init (h : Init r s) : Inv s where
  regQTidx := h.regQTidx
  qHidx := fun q => (h.qHidx q).trans_lt (h.regQTidx q)
  posted := fun q => by rw [h.posted]; nofun
  head := fun q => (h.head q).trans_lt (h.regQTidx q)
  streams := by rw [h.cmdOut, h.dataOut]; rfl
  owned := by
    intro d hd
    rw [h.dataOut] at hd
    cases hd
  valid := by
    intro d hd
    rw [waitingAll_of_not h.retry, h.dataIn] at hd
    cases hd
  handed := fun q => by
    rw [h.handed, h.issued, waiting, waitingAll_of_not h.retry, h.dataIn]
    rfl

theorem hand (h : Inv s) (q : Fin g.qNum) (m : StructCtrlMsg) (junk : StructC2hData) :
    Inv (hand g s q m junk) := by
  have hown : owner (ctrlMsgToC2hData m g.pseudoQid junk).2.data ≠ 0 := by
    rw [owner_ctrlMsgToC2hData]
    exact (by decide : (1 : BitVec 8) ≠ 0)
  unfold C2hQueues.hand
  generalize (ctrlMsgToC2hData m g.pseudoQid junk).2 = c at hown ⊢
  generalize hd : { c with ctrlQid := .ofNat 11 q.val } = d
  have hq : queueOf g.qNum d = some q := hd ▸ queueOf_ofNat q _
  replace hown : owner d.data ≠ 0 := hd ▸ hown
  have hall : waitingAll { s with
      c2hDataIn := s.c2hDataIn ++ [d]
      handed := Function.update s.handed q (s.handed q ++ [d.data]) } = s.waitingAll ++ [d] := by
    rw [waitingAll, waitingAll, List.append_assoc]
  refine ⟨h.regQTidx, h.qHidx, h.posted, h.head, h.streams, h.owned, fun e he => ?_, fun p => ?_⟩
  · rw [hall] at he
    rcases List.mem_append.mp he with hold | hnew
    · exact h.valid e hold
    · rw [List.mem_singleton.mp hnew]
      exact ⟨hown, q, hq⟩
  · rw [waiting, hall, List.filter_append, List.map_append]
    show Function.update s.handed q (s.handed q ++ [d.data]) p = s.issued p ++ (s.waiting p ++ _)
    rw [← List.append_assoc, ← h.handed]
    by_cases hp : p = q
    · subst hp
      rw [Function.update_self, List.filter_singleton, hq]
      simp
    · have hno : ¬ queueOf g.qNum d = some p := fun heq =>
        hp (Option.some.inj (heq.symm.trans hq))
      rw [Function.update_of_ne hp, List.filter_singleton]
      simp [hno]

/-- A tick leaves `Inv`, and the message that is next in line either stays there or goes on. -/
theorem tick (h : Inv s) (hs : s.multiBufferMgr g r = some s') : Inv s' := by
  rw [multiBufferMgr_eq] at hs
  split at hs
  next => cases hs; exact h
  next d rest hline =>
    obtain ⟨q, hq, rfl⟩ := Option.map_eq_some_iff.mp hs
    have hvalid := h.valid
    have hhanded := h.handed
    simp only [waiting, hline] at hvalid hhanded
    rw [tryIssue_eq (s := { s with c2hDataIn := rest }) (h.regQTidx q) (h.qHidx q)]
    split
    next hroom =>
      have hrest : waitingAll { s with
          regRetryC2hData := d
          c2hDataIn := rest
          c2hCmdOut := s.c2hCmdOut ++
            [⟨r.slot q (s.regQTidx q), .ofNat 32 maxMsgLength, g.pseudoQid⟩]
          c2hDataOut := s.c2hDataOut ++ [{ d with ctrlQid := g.pseudoQid }]
          regQTidx := Function.update s.regQTidx q ((s.regQTidx q + 1) % maxMsgNumPerQ)
          regRetryFlag := false
          issued := Function.update s.issued q (s.issued q ++ [d.data]) } = rest :=
        waitingAll_of_not rfl
      refine ⟨fun p => ?_, h.qHidx, h.posted, h.head, ?_, fun e he => ?_, ?_, fun p => ?_⟩
      · show Function.update s.regQTidx q _ p < _
        by_cases hp : p = q
        · rw [hp, Function.update_self]
          exact Nat.mod_lt _ (by decide)
        · rw [Function.update_of_ne hp]
          exact h.regQTidx p
      · show (s.c2hCmdOut ++ [_]).length = (s.c2hDataOut ++ [_]).length
        rw [List.length_append, List.length_append, h.streams]
        rfl
      · rcases List.mem_append.mp he with hold | hnew
        · exact h.owned e hold
        · rw [List.mem_singleton.mp hnew]
          exact (hvalid d (List.mem_cons_self ..)).1
      · rw [hrest]
        exact fun e he => hvalid e (List.mem_cons_of_mem _ he)
      · rw [waiting, hrest]
        show s.handed p = Function.update s.issued q (s.issued q ++ [d.data]) p ++ _
        rw [hhanded p]
        by_cases hp : p = q
        · subst hp
          rw [Function.update_self, List.filter_cons_of_pos (by simpa using hq), List.map_cons,
            List.append_assoc]
          rfl
        · have hno : ¬ queueOf g.qNum d = some p := fun heq =>
            hp (Option.some.inj (heq.symm.trans hq))
          rw [Function.update_of_ne hp, List.filter_cons_of_neg (by simpa using hno)]
    next hfull =>
      exact ⟨h.regQTidx, h.qHidx, h.posted, h.head, h.streams, h.owned, hvalid, hhanded⟩

/-- What the host and the streams do keeps `Inv` as long as it keeps the indices in range. -/
theorem host (h : Inv s) {cs : List StructC2hCmd} {ds : List StructC2hData}
    (hlen : cs.length = ds.length) (hown : ∀ d ∈ ds, d ∈ s.c2hDataOut) {qHidx : Fin g.qNum → ℕ}
    (hq : ∀ q, qHidx q < maxMsgNumPerQ) {posted : Fin g.qNum → List ℕ}
    (hp : ∀ q, ∀ i ∈ posted q, i < maxMsgNumPerQ) {rx : Fin g.qNum → RxRingBuffer}
    (hrx : ∀ q, (rx q).head < maxMsgNumPerQ) (mem : Addr → BitVec 512)
    (received : Fin g.qNum → List (BitVec 512)) :
    Inv { s with
      c2hCmdOut := cs
      c2hDataOut := ds
      qHidx := qHidx
      posted := posted
      mem := mem
      rx := rx
      received := received } :=
  ⟨h.regQTidx, hq, hp, hrx, hlen, fun d hd => h.owned d (hown d hd), h.valid, h.handed⟩

theorem forall_update {α : Type} {P : Fin g.qNum → α → Prop} {f : Fin g.qNum → α} {q : Fin g.qNum}
    {v : α} (hf : ∀ p, P p (f p)) (hv : P q v) (p : Fin g.qNum) : P p (Function.update f q v p) := by
  by_cases hp : p = q
  · subst hp
    rwa [Function.update_self]
  · rw [Function.update_of_ne hp]
    exact hf p

/-- Every step of the model. -/
theorem step {a : C2hAction g.qNum} (h : Inv s) (hs : C2hQueues.step g r a s = some s') :
    Inv s' := by
  have hrx : ∀ q (x : RxRingBuffer), x.head < maxMsgNumPerQ →
      ∀ p, (Function.update s.rx q x p).head < maxMsgNumPerQ := fun _ _ hx =>
    forall_update (P := fun _ (x : RxRingBuffer) => x.head < maxMsgNumPerQ) h.head hx
  have hposts : ∀ q (l : List ℕ), (∀ i ∈ l, i < maxMsgNumPerQ) →
      ∀ p, ∀ i ∈ Function.update s.posted q l p, i < maxMsgNumPerQ := fun _ _ hl =>
    forall_update (P := fun _ (l : List ℕ) => ∀ i ∈ l, i < maxMsgNumPerQ) h.posted hl
  cases a with
  | hand q m junk => cases hs; exact h.hand q m junk
  | tick => exact h.tick hs
  | dma =>
      simp only [C2hQueues.step, dma] at hs
      split at hs
      next c cs d ds hc hd =>
        cases hs
        have hlen := h.streams
        rw [hc, hd] at hlen
        exact h.host (Nat.succ.inj hlen) (fun e he => hd ▸ List.mem_cons_of_mem _ he) h.qHidx
          h.posted h.head _ _
      next => cases hs
  | arrive q =>
      simp only [C2hQueues.step, arrive] at hs
      split at hs
      next i rest hp =>
        cases hs
        have hle := h.posted q
        rw [hp] at hle
        refine h.host h.streams (fun _ hd => hd) ?_
          (hposts q _ fun j hj => hle j (List.mem_cons_of_mem _ hj)) h.head _ _
        exact forall_update (P := fun _ i => i < maxMsgNumPerQ) h.qHidx
          (hle i (List.mem_cons_self ..))
      next => cases hs
  | poll q =>
      simp only [C2hQueues.step, poll] at hs
      split at hs
      next =>
        obtain ⟨-, hs⟩ := Option.ite_none_right_eq_some.mp hs
        cases hs
        refine h.host h.streams (fun _ hd => hd) h.qHidx h.posted (hrx q _ ?_) _ _
        exact h.head q
      next => cases hs
  | copy q =>
      simp only [C2hQueues.step, copy] at hs
      split at hs
      next =>
        cases hs
        refine h.host h.streams (fun _ hd => hd) h.qHidx h.posted (hrx q _ ?_) _ _
        exact h.head q
      next => cases hs
  | clear q =>
      simp only [C2hQueues.step, clear] at hs
      split at hs
      next =>
        cases hs
        refine h.host h.streams (fun _ hd => hd) h.qHidx h.posted (hrx q _ ?_) _ _
        exact h.head q
      next => cases hs
  | publish q =>
      simp only [C2hQueues.step, publish] at hs
      split at hs
      next =>
        cases hs
        refine h.host h.streams (fun _ hd => hd) h.qHidx (hposts q _ fun i hi => ?_)
          (hrx q _ ?_) _ _
        · rcases List.mem_append.mp hi with hold | hnew
          · exact h.posted q i hold
          · rw [List.eq_of_mem_replicate hnew]
            exact h.head q
        · exact h.head q
      next => cases hs
  | stepHead q =>
      simp only [C2hQueues.step, stepHead] at hs
      split at hs
      next =>
        cases hs
        refine h.host h.streams (fun _ hd => hd) h.qHidx h.posted (hrx q _ ?_) _ _
        exact Nat.mod_lt _ (by decide)
      next => cases hs

theorem of_reachable (h : (c2hQueues g r).Reachable s) : Inv s :=
  h.invariant (fun _ => of_init) fun _ _ _ _ hinv hs => hinv.step hs

end Inv

/-- A manager never meets a message for a queue that it does not have. -/
theorem Inv.tick_isSome (h : Inv s) (r : Rings g.qNum) : (s.multiBufferMgr g r).isSome := by
  rw [multiBufferMgr_eq]
  have hvalid := h.valid
  split
  next => rfl
  next d rest hline =>
    obtain ⟨-, q, hq⟩ := hvalid d (hline ▸ List.mem_cons_self ..)
    rw [hq]
    rfl

/-! ## One queue as a ring -/

/-- The slot of queue `q` that a command is for, with the message. -/
def slotOf (r : Rings g.qNum) (q : Fin g.qNum) (p : StructC2hCmd × StructC2hData) :
    Option (ℕ × BitVec 512) :=
  ((List.range maxMsgNumPerQ).find? fun i => p.1.addr = r.slot q i).map fun i =>
    (i, clearOwner p.2.data)

section Memory

variable (r) (mem : Addr → BitVec 512) (w : BitVec 512) {q : Fin g.qNum} {i : ℕ}

end Memory

/-- What is on its way to the slots of queue `q`. -/
def inFlight (r : Rings g.qNum) (s : C2hQueues g.qNum) (q : Fin g.qNum) : List (BitVec 512) :=
  ((s.c2hCmdOut.zip s.c2hDataOut).filterMap (slotOf r q)).map Prod.snd

end C2hQueues

open C2hQueues

end Ting
