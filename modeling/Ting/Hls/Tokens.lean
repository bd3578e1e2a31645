/-
# `Ting.Hls.Tokens` — every request is owed one answer

As long as a request has not been answered, the fabric holds exactly one thing that will
lead to its answer: the request itself, an order to a dirty owner, or a pending transaction
that collects acknowledgements (`seeking`); afterwards it holds the answer (`answering`), until
the thread takes it.  A write miss on a shared block is owed its data besides.  No internal
step creates or destroys any of this, and none leads from a request to an answer that its
type does not have (`mismatched`).
-/
import Ting.Hls.Balance

namespace Ting

open Total Fabric

/-- A request as the things derived from it remember it. -/
structure Origin where
  ticket : Ticket
  header : Header
  deriving DecidableEq

/-- The request a message descends from. -/
def Packet.origin (p : Packet) : Origin := ⟨p.ticket, p.msg.header⟩

/-- The request that started a transaction. -/
def Txn.origin (T : Txn) : Origin := ⟨T.ticket, T.header⟩

/-- The node that asked. -/
abbrev Origin.node (o : Origin) : NodeId := o.header.reqClineNodeID

/-- The block asked for. -/
abbrev Origin.block (o : Origin) : Block := o.header.block

/-- One for a message that descends from `o`. -/
def Packet.stems (o : Origin) (p : Packet) : ℕ :=
  ind (p.origin = o)

theorem Packet.stems_local {o : Origin} {p : Packet} (h : p.msg.block ≠ o.block) :
    p.stems o = 0 :=
  ind_of_not fun hc => h (congrArg Origin.block hc)

/-- A message derived from `p` descends from the same request. -/
theorem Packet.stems_header {o : Origin} {p : Packet} {m : CtrlMsg}
    (h : m.header = p.msg.header) : Packet.stems o ⟨p.ticket, m⟩ = p.stems o := by
  unfold stems origin
  rw [h]

/-- The pending transaction of an entry has property `P`. -/
def DirDataE.pends (P : Txn → Bool) (e : DirDataE) (T : Option Txn) : ℕ :=
  ind (e.state.isTransient ∧ T.any P)

theorem DirDataE.pends_stable {P : Txn → Bool} {e : DirDataE} {T : Option Txn}
    (h : e.state.isTransient = false) : e.pends P T = 0 :=
  ind_of_not fun hc => by rw [h] at hc; cases hc.1

theorem DirDataE.pends_tracked {P : Txn → Bool} {e : DirDataE} {T : Txn} (h : T.Tracks e) :
    e.pends P (some T) = ind (P T) := by
  have ht : e.state.isTransient := by
    rw [h.state]
    exact TxnKind.state_isTransient _
  exact ind_congr (by simp [ht])

namespace Flight

/-- A request, or an order to a dirty owner: something on the network that will lead to an
answer. -/
def seeks (f : Flight) : Bool :=
  f.loc = .net && (f.packet.msg.mtype.isRequest || f.packet.msg.mtype.takesWrite)

/-- An answer that ends a request. -/
def answers (f : Flight) : Bool :=
  f.packet.msg.mtype.isOutcome

/-- The data of a write miss on a shared block. -/
def shareddata (f : Flight) : Bool :=
  f.packet.msg.mtype.isShareddata

/-- The grant that belongs to it. -/
def missAggack (f : Flight) : Bool :=
  f.packet.msg.mtype.isMissAggack

/-- An answer that says that the requester's cell had the wrong value. -/
def bitmapFail (f : Flight) : Bool :=
  f.packet.msg.mtype.isBitmapFail

end Flight

namespace Ledger

/-- The messages with property `P` that descend from `o`. -/
def descending (P : Flight → Bool) (o : Origin) : Ledger o.block where
  flight f := if P f then f.packet.stems o else 0
  cc _ := 0
  dir _ := 0
  entry _ _ := 0
  flight_local f h := by
    split
    · exact Packet.stems_local h
    · rfl
  cc_local _ _ := rfl
  dir_local _ _ := rfl

/-- The pending transaction, if it is of a kind with property `P` and was started by `o`. -/
def pending (P : TxnKind → Bool) (o : Origin) : Ledger o.block where
  flight _ := 0
  cc _ := 0
  dir _ := 0
  entry := DirDataE.pends fun T => P T.kind && T.origin = o
  flight_local _ _ := rfl
  cc_local _ _ := rfl
  dir_local _ _ := rfl

section Weights

variable {P : Flight → Bool} {Q : TxnKind → Bool} {o : Origin}

@[simp] theorem descending_flight (f : Flight) :
    (descending P o).flight f = if P f then f.packet.stems o else 0 := rfl

@[simp] theorem descending_cc (r : CcRegs) : (descending P o).cc r = 0 := rfl

@[simp] theorem descending_dir (r : DirRegs) : (descending P o).dir r = 0 := rfl

@[simp] theorem descending_entry (e : DirDataE) (T : Option Txn) :
    (descending P o).entry e T = 0 := rfl

@[simp] theorem pending_flight (f : Flight) : (pending Q o).flight f = 0 := rfl

@[simp] theorem pending_cc (r : CcRegs) : (pending Q o).cc r = 0 := rfl

@[simp] theorem pending_dir (r : DirRegs) : (pending Q o).dir r = 0 := rfl

@[simp] theorem pending_entry (e : DirDataE) (T : Option Txn) :
    (pending Q o).entry e T = e.pends (fun T => Q T.kind && T.origin = o) T := rfl

@[simp] theorem pending_sent (k : Ticket) (out : Option CtrlMsg) : (pending Q o).sent k out = 0 := by
  cases out <;> rfl

@[simp] theorem add_flight {b : Block} (L K : Ledger b) (f : Flight) :
    (L + K).flight f = L.flight f + K.flight f := rfl

@[simp] theorem add_cc {b : Block} (L K : Ledger b) (r : CcRegs) :
    (L + K).cc r = L.cc r + K.cc r := rfl

@[simp] theorem add_dir {b : Block} (L K : Ledger b) (r : DirRegs) :
    (L + K).dir r = L.dir r + K.dir r := rfl

@[simp] theorem add_entry {b : Block} (L K : Ledger b) (e : DirDataE) (T : Option Txn) :
    (L + K).entry e T = L.entry e T + K.entry e T := rfl

@[simp] theorem add_sent {b : Block} (L K : Ledger b) (k : Ticket) (out : Option CtrlMsg) :
    (L + K).sent k out = L.sent k out + K.sent k out := by
  cases out <;> rfl

/-- Each message in transit weighs at most the value of the ledger. -/
theorem flight_le {b : Block} (L : Ledger b) {s : Fabric} {f : Flight} (hf : f ∈ s.flights) :
    L.flight f ≤ L.value s := by
  have := le_total (f := L.flight) hf
  unfold value
  omega

/-- So does the entry. -/
theorem entry_le {b : Block} (L : Ledger b) (s : Fabric) :
    L.entry (s.dir b) (s.txnOf b) ≤ L.value s := by
  unfold value
  omega

/-- A ledger that weighs everything at least as much has at least the value. -/
theorem value_mono {b : Block} {L K : Ledger b} (hfl : ∀ f, L.flight f ≤ K.flight f)
    (hcc : ∀ r, L.cc r ≤ K.cc r) (hdir : ∀ r, L.dir r ≤ K.dir r)
    (hentry : ∀ e T, L.entry e T ≤ K.entry e T) (s : Fabric) : L.value s ≤ K.value s :=
  Nat.add_le_add (Nat.add_le_add (Nat.add_le_add (total_mono hfl _)
    (Finset.sum_le_sum fun _ _ => hcc _)) (hdir _)) (hentry _ _)

end Weights

/-- What will lead to the answer of `o`. -/
def seeking (o : Origin) : Ledger o.block :=
  descending Flight.seeks o + pending TxnKind.isShared o

/-- The answer of `o`. -/
def answering (o : Origin) : Ledger o.block :=
  descending Flight.answers o

end Ledger

section Conservation

variable {s s' : Fabric} {o : Origin}

theorem Answers.pends {P : Txn → Bool} {m : CtrlMsg} {e e' : DirDataE} {ty : RawMessageType}
    {T : Option Txn} (h : Answers m e e' ty) : e'.pends P T = e.pends P T := by
  have hz : ∀ {e : DirDataE} {st : RawState}, e.state = st → st.isTransient = false →
      e.pends P T = 0 := fun hs ht => DirDataE.pends_stable (hs ▸ ht)
  cases h with
  | mCheckFail hs he | bitmapCheckFail hs hb he => rw [he]
  | readMiss hm hs hb hs' hb' =>
      rw [hz hs' rfl]
      rcases hs with hs | hs <;> rw [hz hs rfl]
  | evictShared hm hs hb hs' hb' =>
      rw [hz hs rfl]
      rcases hs' with hs' | hs' <;> rw [hz hs' rfl]
  | writeMiss hm hs hb hs' hb' | writeSharedOnly hm hs hb hs' hb' | evictDirty hm hs hb hs' hb' =>
      rw [hz hs rfl, hz hs' rfl]

theorem Answers.isOutcome {m : CtrlMsg} {e e' : DirDataE} {ty : RawMessageType}
    (h : Answers m e e' ty) : ty.isOutcome := by
  cases h <;> rfl

/-- The types of what stands for an answer on the network. -/
def RawMessageType.isToken (t : RawMessageType) : Bool :=
  t.isRequest || t.takesWrite || t.isOutcome

theorem Ledger.token_net {p : Packet} : (seeking o + answering o).flight ⟨.net, p⟩
    = if p.msg.mtype.isToken then p.stems o else 0 := by
  have hdisjoint : ∀ t : RawMessageType, (t.isRequest || t.takesWrite) = true →
      t.isOutcome = false := by decide
  show (if (true && (p.msg.mtype.isRequest || p.msg.mtype.takesWrite)) = true then _ else 0) + 0
    + (if p.msg.mtype.isOutcome then _ else 0) = _
  rw [Bool.true_and, RawMessageType.isToken]
  cases hs : p.msg.mtype.isRequest || p.msg.mtype.takesWrite
  · simp
  · simp [hdisjoint _ hs]

theorem Ledger.token_of {p : Packet} (hm : p.msg.mtype.isToken = true) :
    (seeking o + answering o).flight ⟨.net, p⟩ = p.stems o := by
  rw [token_net, if_pos hm]

/-- A token sent in answer to message `p`. -/
theorem Ledger.token_sent {p : Packet} {m : CtrlMsg} (hm : m.mtype.isToken = true)
    (h : m.header = p.msg.header) :
    (seeking o + answering o).flight ⟨.net, ⟨p.ticket, m⟩⟩ = p.stems o := by
  rw [token_of hm, Packet.stems_header h]

theorem Ledger.token_zero {k : Ticket} {m : CtrlMsg} (hm : m.mtype.isToken = false) :
    (seeking o + answering o).flight ⟨.net, ⟨k, m⟩⟩ = 0 := by
  rw [token_net, hm]
  rfl

theorem Ledger.token_sys {n : NodeId} {a : AgentId} {k : Ticket} {m : CtrlMsg}
    (hm : m.mtype.isOrder) : (seeking o + answering o).flight ⟨.sys n a, ⟨k, m⟩⟩ = 0 := by
  have hz : m.mtype.isOutcome = false := by
    revert hm
    generalize m.mtype = t
    revert t
    decide
  show 0 + 0 + (if m.mtype.isOutcome then _ else 0) = 0
  rw [hz]
  rfl

theorem Ledger.token_app {n : NodeId} {τ : ThreadId} {p : Packet} :
    (seeking o + answering o).flight ⟨.app n τ, p⟩
      = if p.msg.mtype.isOutcome then p.stems o else 0 :=
  Nat.zero_add _

@[simp] theorem Ledger.token_entry (e : DirDataE) (T : Option Txn) :
    (seeking o + answering o).entry e T = e.pends (fun T => T.kind.isShared && T.origin = o) T :=
  Nat.zero_add _

@[simp] theorem Ledger.token_cc (r : CcRegs) : (seeking o + answering o).cc r = 0 := rfl

@[simp] theorem Ledger.token_dir (r : DirRegs) : (seeking o + answering o).dir r = 0 := rfl

theorem TxnKind.token_order (k : TxnKind) : k.order.isToken = !k.isShared := by
  cases k <;> rfl

theorem TxnKind.token_ack (k : TxnKind) : k.ack.isToken = false := by
  cases k <;> rfl

theorem TxnKind.token_grant (k : TxnKind) : k.grant.isToken = true := by
  cases k <;> rfl

theorem Txn.origin_eq {T : Txn} {k : Ticket} {m : CtrlMsg} (hT : s.Belongs k m T) :
    T.origin = Packet.origin ⟨k, m⟩ := by
  obtain ⟨-, -, hk, hh⟩ := hT
  unfold origin Packet.origin
  rw [hk, hh]

/-- No internal step changes how many things stand for the answer of a request. -/
theorem BlockStep.tokens (h : BlockStep o.block s s') :
    (Ledger.seeking o).value s' + (Ledger.answering o).value s'
      = (Ledger.seeking o).value s + (Ledger.answering o).value s := by
  rw [← Ledger.value_add, ← Ledger.value_add]
  cases h with
  | elsewhere h => rw [h]
  | answered p e ty hb hin hm hk hr hans h =>
      have hl := h (.seeking o + .answering o)
      have htoken : p.msg.mtype.isToken := by simp [RawMessageType.isToken, hm]
      have hout : ((latch p.msg (s.dir o.block)).toApp ty).mtype.isToken := by
        simp [RawMessageType.isToken, hans.isOutcome]
      rw [Ledger.token_entry, Ledger.token_entry, hans.pends, Ledger.token_of htoken,
        Ledger.token_sent hout rfl] at hl
      omega
  | opened p t hb hin hm hk hr hstable htracks hasks h =>
      have hl := h (.seeking o + .answering o)
      have htoken : p.msg.mtype.isToken := by simp [RawMessageType.isToken, hm]
      rw [Ledger.token_entry, Ledger.token_entry, DirDataE.pends_stable hstable,
        DirDataE.pends_tracked htracks, Ledger.token_of htoken, Ledger.token_dir] at hl
      cases hasks with
      | owner hk' a' b' ho hregs hout =>
          have hsent : (Ledger.seeking o + .answering o).sent p.ticket t.out = p.stems o := by
            rw [hout]
            exact Ledger.token_sent ((TxnKind.token_order _).trans (by rw [hk']; rfl)) rfl
          rw [hsent] at hl
          simp only [hk', Bool.false_and] at hl
          rw [ind_of_not Bool.false_ne_true] at hl
          omega
      | sharers hk' hs hm' hb' hregs hout =>
          have hsent : (Ledger.seeking o + .answering o).sent p.ticket t.out = 0 := by
            rw [hout]
            split_ifs
            · exact Ledger.token_zero rfl
            · rfl
          rw [hsent] at hl
          simp only [hk', Bool.true_and] at hl
          have : ind (decide ((Txn.start p.ticket p.msg (s.dir o.block)).origin = o) = true)
              = p.stems o := ind_congr decide_eq_true_iff
          omega
  | acked p T t hb hin hT hm htracks ha hack h =>
      have hl := h (.seeking o + .answering o)
      have htoken : p.msg.mtype.isToken = false := hm ▸ TxnKind.token_ack _
      rw [Ledger.token_entry, Ledger.token_entry, DirDataE.pends_tracked htracks,
        Ledger.token_zero htoken] at hl
      cases hack with
      | last hmiss hstate hbits hcons hout =>
          have hstable : t.dirData.state.isTransient = false := by
            rw [hstate]
            split_ifs <;> rfl
          rw [DirDataE.pends_stable hstable, hout] at hl
          by_cases hk : T.kind.isShared = true
          · have hsent : (Ledger.seeking o + .answering o).sent p.ticket
                (some ((latch p.msg (s.dir o.block)).toApp T.kind.grant)) = p.stems o :=
              Ledger.token_sent (TxnKind.token_grant _) rfl
            rw [if_pos hk, hsent] at hl
            simp only [hk, Bool.true_and] at hl
            have : ind (decide (T.origin = o) = true) = p.stems o := by
              rw [Txn.origin_eq hT]
              exact ind_congr decide_eq_true_iff
            omega
          · rw [if_neg hk] at hl
            simp only [hk, Bool.false_and, Ledger.sent_none] at hl
            rw [ind_of_not Bool.false_ne_true] at hl
            omega
      | more hk htracks' hstate hout =>
          rw [DirDataE.pends_tracked htracks', hout] at hl
          rw [Ledger.sent_none] at hl
          change _ + (0 + ind ((T.kind.isShared && decide (T.origin = o)) = true))
            = _ + (0 + ind ((T.kind.isShared && decide (T.origin = o)) = true)) at hl
          omega
  | delivered p T a hb hin hT hm hk h =>
      have hl := h (.seeking o + .answering o)
      have htoken : p.msg.mtype.isToken = false := by rw [hm, TxnKind.token_order, hk]; rfl
      have ho : (p.msg.forThread .sys).mtype.isOrder := hm ▸ FabricInv.order_isOrder _
      rw [Ledger.token_zero htoken, Ledger.token_sys ho,
        Ledger.token_zero (TxnKind.token_ack _)] at hl
      omega
  | shipped p T a hb hin hT hm hk h =>
      have hl := h (.seeking o + .answering o)
      have htoken : p.msg.mtype.isToken := by rw [hm, TxnKind.token_order, hk]; rfl
      have ho : (p.msg.forThread .sys).mtype.isOrder := hm ▸ FabricInv.order_isOrder _
      have hsent : (Ledger.seeking o + .answering o).flight
          ⟨.net, ⟨p.ticket, (p.msg.forThread .sys).toRequester T.kind.grant⟩⟩ = p.stems o :=
        Ledger.token_sent (TxnKind.token_grant _) rfl
      rw [Ledger.token_of htoken, Ledger.token_sys ho, hsent, Ledger.token_cc] at hl
      omega
  | passed p hb hin hm h =>
      have hl := h (.seeking o + .answering o)
      have htoken : p.msg.mtype.isToken = p.msg.mtype.isOutcome := by
        revert hm
        generalize p.msg.mtype = t
        revert t
        decide
      rw [Ledger.token_net, Ledger.token_app, htoken] at hl
      change _ + (if p.msg.mtype.isOutcome = true then p.stems o else 0)
        = _ + (if p.msg.mtype.isOutcome = true then p.stems o else 0) at hl
      omega
  | shipAcked k r T hb hf hT hm hk h =>
      have hl := h (.seeking o + .answering o)
      rw [Ledger.token_zero (TxnKind.token_ack _), Ledger.token_cc] at hl
      omega
  | copied k r t T hb hf hT hk hcopy h =>
      have hl := h (.seeking o + .answering o)
      have hsent : (Ledger.seeking o + .answering o).sent k t.2 = 0 := by
        cases hout : t.2 with
        | none => rfl
        | some m =>
            have hm := hcopy.out_type hk hout
            refine Ledger.token_zero ?_
            revert hm
            generalize m.mtype = t
            revert t
            decide
      rw [Ledger.token_dir, Ledger.token_dir, hsent] at hl
      omega

/-! ## The data of a write miss on a shared block -/

theorem Ledger.descending_zero {P : Flight → Bool} {f : Flight} (h : P f = false) :
    (descending P o).flight f = 0 := by
  rw [descending_flight, h]
  rfl

theorem Ledger.descending_of {P : Flight → Bool} {p : Packet} {m : CtrlMsg} {loc : Loc}
    (h : P ⟨loc, ⟨p.ticket, m⟩⟩ = true) (hm : m.header = p.msg.header) :
    (descending P o).flight ⟨loc, ⟨p.ticket, m⟩⟩ = p.stems o := by
  rw [descending_flight, if_pos h]
  exact Packet.stems_header hm

theorem Ledger.sent_descending {P : Flight → Bool} {k : Ticket} {out : Option CtrlMsg}
    (hout : ∀ m, out = some m → P ⟨.net, ⟨k, m⟩⟩ = false) : (descending P o).sent k out = 0 := by
  cases out with
  | none => rfl
  | some m => exact descending_zero (hout m rfl)

/-- Everything but the data of a write miss on a shared block and its grant. -/
def RawMessageType.notShared (t : RawMessageType) : Bool :=
  !t.isShareddata && !t.isMissAggack

theorem Flight.notShared {f : Flight} {d : RawMessageType → Bool} (hd : d f.packet.msg.mtype = true)
    (hex : ∀ t, d t = true → t.notShared = true) :
    f.shareddata = false ∧ f.missAggack = false := by
  have := hex _ hd
  simpa [RawMessageType.notShared, Flight.shareddata, Flight.missAggack] using this

/-- What a write miss on a shared block is owed besides its grant: the data has been sent for
every such transaction that is pending and for every aggregated grant that is under way. -/
theorem BlockStep.shareddata (h : BlockStep o.block s s') :
    (Ledger.descending Flight.shareddata o).value s'
        + (Ledger.pending (· = .writeMissShared) o + .descending Flight.missAggack o).value s
      = (Ledger.descending Flight.shareddata o).value s
        + (Ledger.pending (· = .writeMissShared) o + .descending Flight.missAggack o).value s' := by
  cases h with
  | elsewhere h => rw [h, h]
  | answered p e ty hb hin hm hk hr hans h =>
      have hd := h (.descending Flight.shareddata o)
      have hg := h (.pending (· = .writeMissShared) o + .descending Flight.missAggack o)
      have hp := Flight.notShared (f := ⟨.net, p⟩) hm (by decide)
      have hty : ty.notShared = true := by cases hans <;> rfl
      have hout := Flight.notShared (f := ⟨.net, ⟨p.ticket, (latch p.msg (s.dir o.block)).toApp ty⟩⟩)
        hty (by decide)
      simp only [Ledger.add_flight, Ledger.add_entry, Ledger.pending_flight, Ledger.pending_entry,
        Ledger.descending_entry, Ledger.descending_zero hp.1, Ledger.descending_zero hp.2,
        Ledger.descending_zero hout.1, Ledger.descending_zero hout.2, hans.pends] at hd hg
      omega
  | opened p t hb hin hm hk hr hstable htracks hasks h =>
      have hd := h (.descending Flight.shareddata o)
      have hg := h (.pending (· = .writeMissShared) o + .descending Flight.missAggack o)
      have hp := Flight.notShared (f := ⟨.net, p⟩) hm (by decide)
      -- the data goes out with the transaction
      have hsent : (Ledger.descending Flight.shareddata o).sent p.ticket t.out
          = ind ((decide ((Txn.start p.ticket p.msg (s.dir o.block)).kind = .writeMissShared)
            && decide ((Txn.start p.ticket p.msg (s.dir o.block)).origin = o)) = true) := by
        cases hasks with
        | owner hk' a' b' ho hregs hout =>
            rw [hout, Ledger.sent_some, Ledger.descending_zero, ind_of_not]
            · intro hc
              simp only [Bool.and_eq_true, decide_eq_true_eq] at hc
              rw [hc.1] at hk'
              cases hk'
            · show RawMessageType.isShareddata (TxnKind.order _) = false
              cases (Txn.start p.ticket p.msg (s.dir o.block)).kind <;> rfl
        | sharers hk' hs hm' hb' hregs hout =>
            rw [hout]
            split_ifs with hkind
            · refine (Ledger.descending_of (p := p) ?_ ?_).trans ?_
              · rfl
              · rfl
              · refine ind_congr ?_
                rw [hkind, Bool.and_eq_true, decide_eq_true_eq, decide_eq_true_eq]
                exact ⟨fun hc => ⟨rfl, hc⟩, fun hc => hc.2⟩
            · exact (ind_of_not (by simp [hkind])).symm
      have hagg : (Ledger.descending Flight.missAggack o).sent p.ticket t.out = 0 :=
        Ledger.sent_descending fun m hm' => (by decide : ∀ t : RawMessageType, t.opens = true →
          t.isMissAggack = false) _ (hasks.out_type hm')
      simp only [Ledger.add_flight, Ledger.add_entry, Ledger.add_sent, Ledger.add_dir,
        Ledger.pending_flight, Ledger.pending_entry, Ledger.pending_sent, Ledger.pending_dir,
        Ledger.descending_entry, Ledger.descending_dir, Ledger.descending_zero hp.1,
        Ledger.descending_zero hp.2, hsent, hagg, DirDataE.pends_stable hstable,
        DirDataE.pends_tracked htracks] at hd hg
      omega
  | acked p T t hb hin hT hm htracks ha hack h =>
      have hd := h (.descending Flight.shareddata o)
      have hg := h (.pending (· = .writeMissShared) o + .descending Flight.missAggack o)
      have hin' : p.msg.mtype.isAck = true := hm ▸ FabricInv.ack_isAck _
      have hp := Flight.notShared (f := ⟨.net, p⟩) hin' (by decide)
      have hsent : (Ledger.descending Flight.shareddata o).sent p.ticket t.out = 0 :=
        Ledger.sent_descending fun m hm' => (by decide : ∀ t : RawMessageType, t.isAggack = true →
          t.isShareddata = false) _ (hack.out_type hm')
      simp only [Ledger.add_flight, Ledger.add_entry, Ledger.add_sent,
        Ledger.pending_flight, Ledger.pending_entry, Ledger.pending_sent,
        Ledger.descending_entry, Ledger.descending_zero hp.1,
        Ledger.descending_zero hp.2, hsent, DirDataE.pends_tracked htracks] at hd hg
      cases hack with
      | last hmiss hstate hbits hcons hout =>
          have hstable : t.dirData.state.isTransient = false := by
            rw [hstate]
            split_ifs <;> rfl
          have hagg : (Ledger.descending Flight.missAggack o).sent p.ticket t.out
              = ind ((decide (T.kind = .writeMissShared) && decide (T.origin = o)) = true) := by
            rw [hout]
            cases hkind : T.kind
            case writeMissShared =>
              simp only [TxnKind.isShared, if_true]
              refine (Ledger.descending_of (p := p) ?_ ?_).trans ?_
              · rfl
              · rfl
              · refine ind_congr ?_
                rw [Txn.origin_eq hT, Bool.and_eq_true, decide_eq_true_eq, decide_eq_true_eq]
                exact ⟨fun hc => ⟨trivial, hc⟩, fun hc => hc.2⟩
            all_goals exact (ind_of_not (by simp)).symm
          rw [DirDataE.pends_stable hstable, hagg] at hg
          omega
      | more hk htracks' hstate hout =>
          rw [DirDataE.pends_tracked htracks', hout, Ledger.sent_none] at hg
          change _ + (0 + 0 + (ind ((decide (T.kind = .writeMissShared)
            && decide (T.origin = o)) = true) + 0)) = _ + (0 + 0 + (ind ((decide
              (T.kind = .writeMissShared) && decide (T.origin = o)) = true) + 0)) at hg
          omega
  | delivered p T a hb hin hT hm hk h =>
      have hd := h (.descending Flight.shareddata o)
      have hg := h (.pending (· = .writeMissShared) o + .descending Flight.missAggack o)
      have ho : p.msg.mtype.isOrder = true := hm ▸ FabricInv.order_isOrder _
      have hp := Flight.notShared (f := ⟨.net, p⟩) ho (by decide)
      have hs := Flight.notShared (f := ⟨.sys p.msg.agentClineNodeID a,
        ⟨p.ticket, p.msg.forThread .sys⟩⟩) ho (by decide)
      have ha := Flight.notShared (f := ⟨.net, ⟨p.ticket,
        (p.msg.forThread .sys).toHome T.kind.ack⟩⟩) (FabricInv.ack_isAck T.kind) (by decide)
      simp only [Ledger.add_flight, Ledger.pending_flight, Ledger.descending_zero hp.1,
        Ledger.descending_zero hp.2, Ledger.descending_zero hs.1, Ledger.descending_zero hs.2,
        Ledger.descending_zero ha.1, Ledger.descending_zero ha.2] at hd hg
      omega
  | shipped p T a hb hin hT hm hk h =>
      have hd := h (.descending Flight.shareddata o)
      have hg := h (.pending (· = .writeMissShared) o + .descending Flight.missAggack o)
      have ho : p.msg.mtype.isOrder = true := hm ▸ FabricInv.order_isOrder _
      have hp := Flight.notShared (f := ⟨.net, p⟩) ho (by decide)
      have hs := Flight.notShared (f := ⟨.sys p.msg.agentClineNodeID a,
        ⟨p.ticket, p.msg.forThread .sys⟩⟩) ho (by decide)
      have hgrant : T.kind.grant.notShared = true := by
        cases hkind : T.kind <;> rw [hkind] at hk <;> first | (cases hk; done) | rfl
      have ha := Flight.notShared (f := ⟨.net, ⟨p.ticket,
        (p.msg.forThread .sys).toRequester T.kind.grant⟩⟩) hgrant (by decide)
      simp only [Ledger.add_flight, Ledger.pending_flight, Ledger.descending_zero hp.1,
        Ledger.descending_zero hp.2, Ledger.descending_zero hs.1, Ledger.descending_zero hs.2,
        Ledger.descending_zero ha.1, Ledger.descending_zero ha.2, Ledger.add_cc, Ledger.pending_cc,
        Ledger.descending_cc] at hd hg
      omega
  | passed p hb hin hm h =>
      have hd := h (.descending Flight.shareddata o)
      have hg := h (.pending (· = .writeMissShared) o + .descending Flight.missAggack o)
      simp only [Ledger.add_flight, Ledger.pending_flight, Ledger.descending_flight] at hd hg
      change _ + (if p.msg.mtype.isShareddata = true then p.stems o else 0)
        = _ + (if p.msg.mtype.isShareddata = true then p.stems o else 0) at hd
      change _ + (0 + if p.msg.mtype.isMissAggack = true then p.stems o else 0)
        = _ + (0 + if p.msg.mtype.isMissAggack = true then p.stems o else 0) at hg
      omega
  | shipAcked k r T hb hf hT hm hk h =>
      have hd := h (.descending Flight.shareddata o)
      have hg := h (.pending (· = .writeMissShared) o + .descending Flight.missAggack o)
      have ha := Flight.notShared (f := ⟨.net, ⟨k, r.regCtrlMsg.toHome T.kind.ack⟩⟩)
        (FabricInv.ack_isAck T.kind) (by decide)
      simp only [Ledger.add_flight, Ledger.pending_flight, Ledger.descending_zero ha.1,
        Ledger.descending_zero ha.2, Ledger.add_cc, Ledger.pending_cc, Ledger.descending_cc]
        at hd hg
      omega
  | copied k r t T hb hf hT hk hcopy h =>
      have hd := h (.descending Flight.shareddata o)
      have hg := h (.pending (· = .writeMissShared) o + .descending Flight.missAggack o)
      have hout : ∀ m, t.2 = some m → Flight.shareddata ⟨.net, ⟨k, m⟩⟩ = false ∧
          Flight.missAggack ⟨.net, ⟨k, m⟩⟩ = false :=
        fun m hm => Flight.notShared (hcopy.out_type hk hm) (by decide)
      simp only [Ledger.add_dir, Ledger.add_sent, Ledger.pending_dir, Ledger.pending_sent,
        Ledger.descending_dir, Ledger.sent_descending fun m hm => (hout m hm).1,
        Ledger.sent_descending fun m hm => (hout m hm).2] at hd hg
      omega

end Conservation

end Ting
