/-
# `Ting.Hls.RefusedEviction` — what a refused eviction does to memory

`deparser` steers the payload of `R_EVICT_DIRTY` to memory whatever the directory is going to
say.  A refusal changes no entry and starts nothing, so the rest of the node goes on as if the
message had not come; but the payload is written.  As long as it brings nothing new to the page
of any block, the node is in step with one that the message never reaches.
-/
import Ting.Hls.HomeMemory

namespace Ting

/-! ## Queues without some of their members -/

section Filter

variable {α : Type*} {p : α → Bool} {x : α}

theorem filter_eraseIdx_of_not : ∀ {l : List α} {i : ℕ}, l[i]? = some x → p x = false →
    (l.eraseIdx i).filter p = l.filter p
  | [], _, hi, _ => by simp only [List.getElem?_nil, reduceCtorEq] at hi
  | y :: l, 0, hi, hx => by
      cases hi
      simp only [List.eraseIdx_cons_zero, List.filter_cons, hx, Bool.false_eq_true, if_false]
  | y :: l, i + 1, hi, hx => by
      simp only [List.eraseIdx_cons_succ, List.filter_cons,
        filter_eraseIdx_of_not (l := l) (i := i) hi hx]

/-- A member that stays has a place there. -/
theorem exists_filter_eraseIdx : ∀ {l : List α} {i : ℕ}, l[i]? = some x → p x →
    ∃ j, (l.filter p)[j]? = some x ∧ (l.eraseIdx i).filter p = (l.filter p).eraseIdx j
  | [], _, hi, _ => by simp only [List.getElem?_nil, reduceCtorEq] at hi
  | y :: l, 0, hi, hx => by
      cases hi
      exact ⟨0, by simp only [List.filter_cons, hx, if_true, List.getElem?_cons_zero],
        by simp only [List.filter_cons, hx, if_true, List.eraseIdx_cons_zero]⟩
  | y :: l, i + 1, hi, hx => by
      obtain ⟨j, hj, he⟩ := exists_filter_eraseIdx (l := l) (i := i) hi hx
      cases hy : p y
      · exact ⟨j, by simpa only [List.filter_cons, hy, Bool.false_eq_true, if_false] using hj,
          by simpa only [List.eraseIdx_cons_succ, List.filter_cons, hy, Bool.false_eq_true,
            if_false] using he⟩
      · exact ⟨j + 1, by simpa only [List.filter_cons, hy, if_true, List.getElem?_cons_succ] using hj,
          by simpa only [List.eraseIdx_cons_succ, List.filter_cons, hy, if_true,
            List.cons.injEq, true_and] using he⟩

theorem filter_snoc (l : List α) (x : α) (hx : p x) : (l ++ [x]).filter p = l.filter p ++ [x] := by
  rw [List.filter_append, List.filter_cons, if_pos hx, List.filter_nil]

theorem filter_snoc_of_not (l : List α) (x : α) (hx : p x = false) : (l ++ [x]).filter p = l.filter p := by
  rw [List.filter_append, List.filter_cons, hx, if_neg Bool.false_ne_true, List.filter_nil,
    List.append_nil]

end Filter

/-! ## Refusals -/

/-- The answer is `DIR_2_APP_M_CHECK_FAIL` or `DIR_2_APP_BITMAP_CHECK_FAIL`. -/
def DirTick.refuses (t : DirTick) : Bool :=
  t.out.any fun m => m.mtype = .dir2AppMCheckFail || m.mtype = .dir2AppBitmapCheckFail

/-- A request with a payload that counts is an accepted eviction. -/
theorem applies_request {m : CtrlMsg} {e : DirDataE} (hm : m.mtype.isRequest)
    (ha : applies m e) :
    m.mtype = .rEvictDirty ∧ e.state = .sDirty ∧ e.dirGblockBitmap m.reqClineNodeID = true := by
  simp only [applies, Bool.or_eq_true, Bool.and_eq_true, decide_eq_true_eq] at ha
  rcases ha with ⟨ht, -⟩ | ⟨⟨ht, hs⟩, hb⟩
  · rw [ht] at hm
    cases hm
  · exact ⟨ht, hs, hb⟩

/-- A refusal leaves the entry and the registers, and sends nothing but itself. -/
theorem DirCase.refused {r : DirRegs} {m : CtrlMsg} {e : DirDataE} {t : DirTick}
    (h : DirCase r m e t) (hf : t.refuses) : t.dirData = e ∧ t.regs = r ∧ applies m e = false ∧
      ∃ ty : RawMessageType, ty.fromGblock = false ∧ t.out = some ((latch m e).toApp ty) := by
  cases h with
  | mCheckFail hm hs =>
      refine ⟨rfl, rfl, Bool.eq_false_iff.mpr fun ha => ?_, _, rfl, rfl⟩
      obtain ⟨ht, hs', -⟩ := applies_request hm ha
      rw [ht, hs'] at hs
      cases hs
  | bitmapCheckFail hm hs hb =>
      refine ⟨rfl, rfl, Bool.eq_false_iff.mpr fun ha => ?_, _, rfl, rfl⟩
      obtain ⟨ht, -, hb'⟩ := applies_request hm ha
      rw [ht, hb'] at hb
      exact hb rfl
  | _ => cases hf

namespace Home

variable {R : ℕ → Bool} {h h' h₁ h₀ : Home}

/-- `a` is an address of some block. -/
def InBlock (h : Home) (a : Addr) : Prop :=
  ∃ i, Memory.inPage (h.dir i).dirGblockAddr a

/-- The messages numbered in `R` are evictions of dirty lines, and the directory refuses them. -/
def Refused (R : ℕ → Bool) (h : Home) : HomeAction → Prop
  | .arrive a => R a.id → a.msg.mtype = .rEvictDirty
  | .dirTick i => ∀ a, h.inbox[i]? = some a → R a.id → (h.tick a.msg).refuses
  | _ => True

/-- When the payload of one of them is written, the pages of the blocks hold what it brings. -/
def Harmless (R : ℕ → Bool) (h : Home) : HomeAction → Prop
  | .write => ∀ w, h.writes.head? = some w → R w.id → ∀ a, h.InBlock a →
      h.mem.write w.addr w.page a = h.mem a
  | _ => True

/-- `h'` is what `h` would be without the messages numbered in `R`: they have not arrived, have
not been answered, their payloads are not in the write channel and have not been written; all
else is the same, the contents of all blocks included. -/
structure Without (R : ℕ → Bool) (h h' : Home) : Prop where
  dir : h'.dir = h.dir
  regs : h'.regs = h.regs
  regId : h'.regId = h.regId
  inbox : h'.inbox = h.inbox.filter (!R ·.id)
  writes : h'.writes = h.writes.filter (!R ·.id)
  fetches : h'.fetches = h.fetches
  sent : h'.sent = h.sent.filter (!R ·.id)
  mem : ∀ a, h.InBlock a → h'.mem a = h.mem a
  arrived : h'.arrived = h.arrived.filter (!R ·.id)
  written : h'.written = h.written.filter (!R ·.id)
  applied : h'.applied = h.applied

/-! ## Steps -/

/-- No step moves a block. -/
theorem Stepped.addr {a : HomeAction} (hs : Stepped h a h') (i : BlockIndex) :
    (h'.dir i).dirGblockAddr = (h.dir i).dirGblockAddr := by
  cases hs with
  | dirTick j a =>
      simp only [afterDirTick]
      rcases eq_or_ne i a.msg.dirGblockIndex with rfl | hne
      · rw [Function.update_self]
        exact (DirCase.of_transaction _ _ _).addr
      · rw [Function.update_of_ne hne]
  | _ => rfl

theorem Stepped.inBlock {a : HomeAction} {x : Addr} (hs : Stepped h a h') :
    h'.InBlock x ↔ h.InBlock x := by
  simp only [InBlock, hs.addr]

/-- What waits for its payload is to be read from a block, and neither that nor the multicast is
due to a message in `R`. -/
structure Kept (R : ℕ → Bool) (h : Home) : Prop where
  addr : ∀ d ∈ h.fetches, ∃ i, d.msg.dirGblockAddr = (h.dir i).dirGblockAddr
  fetches : ∀ d ∈ h.fetches, R d.id = false
  regId : h.regs.regCopyFlag → R h.regId = false

theorem Kept.init (h0 : h.Init) : h.Kept R where
  addr d hd := by
    rw [h0.fetches] at hd
    cases hd
  fetches d hd := by
    rw [h0.fetches] at hd
    cases hd
  regId hr := by
    rw [h0.regs] at hr
    cases hr

theorem mem_toFetch {id : ℕ} {out : Option CtrlMsg} {d : Departure} :
    d ∈ toFetch id out ↔ ∃ m, out = some m ∧ m.mtype.fromGblock ∧ d = ⟨id, m, none⟩ := by
  simp only [toFetch, List.mem_map, List.mem_filter, Option.mem_toList]
  exact ⟨fun ⟨m, ⟨hm, ht⟩, hd⟩ => ⟨m, hm, ht, hd.symm⟩, fun ⟨m, hm, ht, hd⟩ => ⟨m, ⟨hm, ht⟩, hd.symm⟩⟩

/-- The directory refuses a message. -/
theorem afterDirTick_refused {a : Arrival} (i : ℕ) (hr : h.regs.regCopyFlag = false)
    (hf : (h.tick a.msg).refuses) : ∃ m, h.afterDirTick i a
      = { h with inbox := h.inbox.eraseIdx i, sent := h.sent ++ [⟨a.id, m, none⟩] } := by
  obtain ⟨hdir, hregs, happ, ty, hty, hout⟩ := (DirCase.of_transaction _ _ _).refused hf
  refine ⟨(latch a.msg (h.dir a.msg.dirGblockIndex)).toApp ty, ?_⟩
  simp only [afterDirTick, tick, hdir, hregs, hr, happ, hout, toFetch, toSend, Option.toList_some,
    List.filter_cons, CtrlMsg.toApp_mtype, hty, Bool.false_eq_true, if_false, Bool.not_false,
    if_true, List.filter_nil, List.map_nil, List.map_cons, List.append_nil,
    Function.update_eq_self]

theorem Kept.step {a : HomeAction} (hk : h.Kept R) (hs : Stepped h a h') (hf : h.Refused R a) :
    h'.Kept R := by
  have haddr : ∀ d ∈ h.fetches, ∃ i, d.msg.dirGblockAddr = (h'.dir i).dirGblockAddr := by
    intro d hd
    obtain ⟨i, hi⟩ := hk.addr d hd
    exact ⟨i, hi.trans (hs.addr i).symm⟩
  cases hs with
  | arrive | write => exact ⟨haddr, hk.fetches, hk.regId⟩
  | dirCopy hr => exact ⟨haddr, hk.fetches, fun _ => hk.regId hr⟩
  | fetch d ds hd =>
      exact ⟨fun x hx => haddr x (hd ▸ List.mem_cons_of_mem d hx),
        fun x hx => hk.fetches x (hd ▸ List.mem_cons_of_mem d hx), hk.regId⟩
  | dirTick i a hr hi =>
      cases hR : R a.id
      case true =>
        obtain ⟨m, he⟩ := afterDirTick_refused i hr (hf a hi hR)
        rw [he]
        exact ⟨hk.addr, hk.fetches, hk.regId⟩
      have hcase : DirCase _ _ _ (h.tick a.msg) := DirCase.of_transaction _ _ _
      constructor
      case addr =>
        intro d hd
        rcases List.mem_append.mp hd with hd | hd
        · exact haddr d hd
        · obtain ⟨m, hm, -, rfl⟩ := mem_toFetch.mp hd
          refine ⟨a.msg.dirGblockIndex, (hcase.out_addr hm).2.trans ?_⟩
          simp only [afterDirTick, Function.update_self]
          exact hcase.addr.symm
      case fetches =>
        intro d hd
        rcases List.mem_append.mp hd with hd | hd
        · exact hk.fetches d hd
        · obtain ⟨m, -, -, rfl⟩ := mem_toFetch.mp hd
          exact hR
      case regId =>
        intro hflag
        simp only [afterDirTick] at hflag ⊢
        rw [if_pos hflag]
        exact hR

theorem kept (h0 : h₀.Init) (hr : (home h₀).ReachableWhen (Refused R) h) : h.Kept R :=
  TransitionSystem.ReachableWhen.invariant (fun _ hi => hi ▸ .init h0)
    (fun _ _ _ _ hf hk hs => hk.step (.of_step hs) hf) hr

/-! ## Without the refused messages -/

namespace Without

theorem init (h0 : h₀.Init) : h₀.Without R h₀ where
  dir := rfl
  regs := rfl
  regId := rfl
  inbox := by rw [h0.inbox]; rfl
  writes := by rw [h0.writes]; rfl
  fetches := rfl
  sent := by rw [h0.sent]; rfl
  mem _ _ := rfl
  arrived := by rw [h0.arrived]; rfl
  written := by rw [h0.written]; rfl
  applied := rfl

/-- A message in `R` arrives: on the other side, nothing does. -/
theorem arriveSkipped (hw : h.Without R h') {a : Arrival} (hR : (!R a.id) = false) :
    (h.afterArrive a).Without R h' := by
  refine { hw with inbox := ?_, writes := ?_, arrived := ?_ }
  · simp only [afterArrive, hw.inbox]
    split
    · exact (filter_snoc_of_not _ a (by exact hR)).symm
    · rfl
  · simp only [afterArrive, hw.writes]
    split
    · exact (filter_snoc_of_not _ a.toWrite (by exact hR)).symm
    · rfl
  · exact hw.arrived.trans (filter_snoc_of_not _ a (by exact hR)).symm

/-- Another message arrives on both sides. -/
theorem arrive (hw : h.Without R h') {a : Arrival} (hR : !R a.id) :
    (h.afterArrive a).Without R (h'.afterArrive a) := by
  refine { hw with inbox := ?_, writes := ?_, arrived := ?_ }
  · simp only [afterArrive, hw.inbox]
    split
    · exact (filter_snoc _ a (by exact hR)).symm
    · rfl
  · simp only [afterArrive, hw.writes]
    split
    · exact (filter_snoc _ a.toWrite (by exact hR)).symm
    · rfl
  · simp only [afterArrive, hw.arrived]
    exact (filter_snoc _ a (by exact hR)).symm

theorem filter_toSend {id : ℕ} (out : Option CtrlMsg) (hR : R id = false) :
    (toSend id out).filter (!R ·.id) = toSend id out := by
  refine List.filter_eq_self.mpr fun d hd => ?_
  obtain ⟨m, -, rfl⟩ := List.mem_map.mp hd
  rw [hR]
  rfl

/-- The directory takes up the same message on both sides. -/
theorem dirTick (hw : h.Without R h') {i j : ℕ} {a : Arrival} (hR : R a.id = false)
    (hj : (h.inbox.eraseIdx i).filter (!R ·.id) = h'.inbox.eraseIdx j)
    (haddr : ∀ x, (h.afterDirTick i a).InBlock x ↔ h.InBlock x) :
    (h.afterDirTick i a).Without R (h'.afterDirTick j a) := by
  have htick : h'.tick a.msg = h.tick a.msg := by rw [tick, tick, hw.regs, hw.dir]
  constructor
  case dir => simp only [afterDirTick, htick, hw.dir]
  case regs => simp only [afterDirTick, htick]
  case regId => simp only [afterDirTick, htick, hw.regId]
  case inbox => exact hj.symm
  case writes => exact hw.writes
  case fetches => simp only [afterDirTick, htick, hw.fetches]
  case sent => simp only [afterDirTick, htick, hw.sent, List.filter_append, filter_toSend _ hR]
  case mem => exact fun x hx => hw.mem x ((haddr x).mp hx)
  case arrived => exact hw.arrived
  case written => exact hw.written
  case applied => simp only [afterDirTick, hw.applied, hw.dir]

/-- The DMA engine reads the same block on both sides, and it holds the same. -/
theorem fetch (hw : h.Without R h') {d : Departure} {ds : List Departure} (hR : R d.id = false)
    (haddr : ∃ i, d.msg.dirGblockAddr = (h.dir i).dirGblockAddr) :
    (h.afterFetch d ds).Without R (h'.afterFetch d ds) := by
  have hread : h'.mem.read d.msg.dirGblockAddr = h.mem.read d.msg.dirGblockAddr := by
    obtain ⟨i, hi⟩ := haddr
    funext k
    refine hw.mem _ ⟨i, ?_⟩
    rw [hi]
    exact Memory.inPage_add _ k
  refine { hw with fetches := rfl, sent := ?_ }
  simp only [afterFetch, hread, hw.sent]
  exact (filter_snoc _ _ (by simp only [hR, Bool.not_false])).symm

/-- Every step of the node has its counterpart without the messages in `R`, or needs none. -/
theorem step {a : HomeAction} (hw : h.Without R h') (hk : h.Kept R) (hs : Stepped h a h₁)
    (hf : h.Refused R a) (hh : h.Harmless R a) (hr' : (home h₀).Reachable h') :
    ∃ h₁', (home h₀).Reachable h₁' ∧ h₁.Without R h₁' := by
  have hblock : ∀ x, h₁.InBlock x ↔ h.InBlock x := fun x => hs.inBlock
  cases hs with
  | arrive a hid =>
      cases hR : !R a.id
      case false => exact ⟨h', hr', hw.arriveSkipped hR⟩
      refine ⟨_, .step (a := .arrive a) hr' trivial (if_pos ?_), hw.arrive hR⟩
      rw [hw.arrived]
      exact List.all_eq_true.mpr fun x hx => decide_eq_true (hid x (List.mem_of_mem_filter hx))
  | dirTick i a hr hi =>
      cases hR : R a.id
      case true =>
        obtain ⟨m, he⟩ := afterDirTick_refused i hr (hf a hi hR)
        rw [he]
        refine ⟨h', hr', { hw with inbox := ?_, sent := ?_ }⟩
        · rw [hw.inbox]
          exact (filter_eraseIdx_of_not hi (by rw [hR]; rfl)).symm
        · rw [hw.sent]
          exact (filter_snoc_of_not _ _ (by simp only [hR, Bool.not_true])).symm
      obtain ⟨j, hj, he⟩ := exists_filter_eraseIdx (p := fun x : Arrival => !R x.id) hi
        (by rw [hR]; rfl)
      rw [← hw.inbox] at hj he
      refine ⟨_, .step (a := .dirTick j) hr' trivial ?_, hw.dirTick hR he hblock⟩
      simp only [home, Home.step, hw.regs, hr, Bool.false_eq_true, if_false, hj, Option.map_some]
  | dirCopy hr =>
      refine ⟨_, .step (a := .dirCopy) hr' trivial (if_pos (hw.regs ▸ hr)), { hw with
        regs := congrArg (fun r => (copyStep r).1) hw.regs, sent := ?_ }⟩
      simp only [afterDirCopy, hw.regs, hw.regId, hw.sent, List.filter_append,
        filter_toSend _ (hk.regId hr)]
  | write w ws hq =>
      have hwrites := hw.writes
      rw [hq] at hwrites
      cases hR : R w.id
      case true =>
        refine ⟨h', hr', { hw with writes := ?_, mem := fun x hx => ?_, written := ?_ }⟩
        · rw [hwrites]
          simp only [afterWrite, List.filter_cons, hR, Bool.not_true, Bool.false_eq_true, if_false]
        · exact (hw.mem x hx).trans (hh w (by rw [hq]; rfl) hR x hx).symm
        · exact hw.written.trans (filter_snoc_of_not _ w (by simp only [hR, Bool.not_true])).symm
      simp only [List.filter_cons, hR, Bool.not_false, if_true] at hwrites
      refine ⟨h'.afterWrite w (ws.filter (!R ·.id)), .step (a := .write) hr' trivial ?_,
        { hw with writes := rfl, mem := fun x hx => Memory.write_congr (hw.mem x hx),
                  written := ?_ }⟩
      · simp only [home, Home.step, hwrites]
      · simp only [afterWrite, hw.written]
        exact (filter_snoc _ w (by simp only [hR, Bool.not_false])).symm
  | fetch d ds hd =>
      have hmem : d ∈ h.fetches := hd ▸ List.mem_cons_self
      refine ⟨h'.afterFetch d ds, .step (a := .fetch) hr' trivial ?_,
        hw.fetch (hk.fetches d hmem) (hk.addr d hmem)⟩
      simp only [home, Home.step, hw.fetches, hd]

end Without

/-- In a run in which the directory refuses the evictions in `R`, and in which their payloads
bring nothing new to the pages of the blocks when they are written, the node is where it would
be without them: there is a run of the node in which everything else arrives, and which ends
with the same entries, the same answers to the rest and the same contents of all blocks. -/
theorem refused_eviction_spares (h0 : h₀.Init)
    (hr : (home h₀).ReachableWhen (fun h a => h.Refused R a ∧ h.Harmless R a) h) :
    ∃ h', (home h₀).Reachable h' ∧ h.Without R h' :=
  TransitionSystem.ReachableWhen.invariant
    (P := fun h => ∃ h', (home h₀).Reachable h' ∧ h.Without R h')
    (fun _ (hi : _ = h₀) => ⟨h₀, .init rfl, by rw [hi]; exact .init h0⟩)
    (fun _ _ _ hr hok ⟨_, hr', hw⟩ hs => hw.step (kept h0 (hr.mono fun _ _ hok => hok.1))
      (.of_step hs) hok.1 hok.2 hr') hr

/-! ## A run -/

/-- Node 0 after `INIT_DIR`, with every byte zero. -/
def start : Home where
  dir i := (Fabric.startAt pageOf).dir ⟨0, i⟩
  regs := Fabric.start.dirRegs 0
  regId := 0
  inbox := []
  writes := []
  fetches := []
  sent := []
  mem _ := 0
  arrived := []
  written := []
  applied _ := none

theorem start_init : start.Init :=
  ⟨fun _ => ⟨rfl, rfl, fun _ => rfl⟩, rfl, rfl, rfl, rfl, rfl, rfl, rfl, fun _ => rfl⟩

/-- Node 1 owns block 7 and node 2 asks for it when the eviction of node 1 arrives, with the
address of the block and a line full of `v`. -/
def lateEviction (v : BitVec 8) : List HomeAction :=
  [.arrive ⟨0, request .rWriteMiss 1, fun _ => 0⟩, .dirTick 0,
    .arrive ⟨1, request .rWriteMiss 2, fun _ => 0⟩, .dirTick 0,
    .arrive ⟨2, { request .rEvictDirty 1 with dirGblockAddr := 0x8000 }, fun _ => v⟩, .dirTick 0]

/-- As `Refused`; nothing of `R` is written at all. -/
def sparing (R : ℕ → Bool) (h : Home) : HomeAction → Bool
  | .arrive a => !R a.id || a.msg.mtype = .rEvictDirty
  | .dirTick i => h.inbox[i]?.all fun a => !R a.id || (h.tick a.msg).refuses
  | .write => h.writes.head?.all (!R ·.id)
  | _ => true

theorem sparing_spec (h : Home) (a : HomeAction) (hc : h.sparing R a) :
    h.Refused R a ∧ h.Harmless R a := by
  cases a with
  | arrive a =>
      refine ⟨fun hR => ?_, trivial⟩
      simpa only [sparing, hR, Bool.not_true, Bool.false_or, decide_eq_true_eq] using hc
  | dirTick i =>
      refine ⟨fun a hi hR => ?_, trivial⟩
      simpa only [sparing, hi, Option.all_some, hR, Bool.not_true, Bool.false_or] using hc
  | write =>
      refine ⟨trivial, fun w hw hR => ?_⟩
      simp only [sparing, hw, Option.all_some, hR, Bool.not_true, Bool.false_eq_true] at hc
  | dirCopy | fetch => exact ⟨trivial, trivial⟩

/-- The state in which the payload of the refused eviction is still to be written. -/
def lateState (v : BitVec 8) : Home :=
  ((home start).runWhen (sparing (· == 2)) (lateEviction v) start).get (by rfl)

theorem lateState_reachable (v : BitVec 8) : (home start).ReachableWhen
    (fun h a => h.Refused (· == 2) a ∧ h.Harmless (· == 2) a) (lateState v) :=
  .of_runWhen sparing_spec (.init rfl) (Option.some_get _).symm

/-- It is written. -/
theorem lateState_write (v : BitVec 8) : (home start).step .write (lateState v)
    = some ((lateState v).afterWrite ⟨2, 0x8000, fun _ => v⟩ []) := by
  rfl

theorem refused_eviction_spares_zeros : ∃ h', (home start).Reachable h' ∧
    ((lateState 0).afterWrite ⟨2, 0x8000, fun _ => 0⟩ []).Without (· == 2) h' := by
  refine refused_eviction_spares start_init
    (.step (a := .write) (lateState_reachable 0) ⟨trivial, fun w hw _ a _ => ?_⟩ (lateState_write 0))
  cases (show (lateState 0).writes.head? = some ⟨2, 0x8000, fun _ => 0⟩ by rfl).symm.trans hw
  have hmem : (lateState 0).mem a = 0 := by rfl
  rw [hmem, Memory.write]
  split
  · rfl
  · exact hmem

/-- As long as no payload arrives, nothing is written. -/
theorem mem_of_no_data (h0 : h₀.Init) (hr : (home h₀).Reachable h)
    (hd : ∀ a ∈ h.arrived, a.msg.mtype.hasData = false) : h.writes = [] ∧ h.mem = h₀.mem := by
  revert hd
  refine TransitionSystem.Reachable.invariant
    (P := fun h => (∀ a ∈ h.arrived, a.msg.mtype.hasData = false) → h.writes = [] ∧ h.mem = h₀.mem)
    (fun h hi _ => ?_) (fun h a h' _ ih hs hd => ?_) hr
  · cases hi
    exact ⟨h0.writes, rfl⟩
  · cases Stepped.of_step hs with
    | arrive a hid =>
        obtain ⟨hw, hm⟩ := ih fun x hx => hd x (List.mem_append_left _ hx)
        have ha := hd a (List.mem_append_right _ (List.mem_singleton_self a))
        simp only [afterArrive, ha, Bool.false_eq_true, if_false]
        exact ⟨hw, hm⟩
    | write w ws hq =>
        rw [(ih hd).1] at hq
        cases hq
    | _ => exact ih hd

/-- With a line full of ones in place of the zeros of the home, the refused eviction changes
the block. -/
theorem refused_eviction_written : ¬ ∀ (h₀ h : Home) (R : ℕ → Bool), h₀.Init →
    (home h₀).ReachableWhen (Refused R) h → ∃ h', (home h₀).Reachable h' ∧ h.Without R h' := by
  intro hall
  obtain ⟨h', hr, hw⟩ := hall start _ (· == 2) start_init
    (.step (a := .write) ((lateState_reachable 1).mono fun _ _ hok => hok.1) trivial
      (lateState_write 1))
  have hnone : ∀ a ∈ h'.arrived, a.msg.mtype.hasData = false := by
    have hmisses : ((lateState 1).arrived.filter fun a => !a.id == 2).all
        (!·.msg.mtype.hasData) := by rfl
    rw [hw.arrived]
    exact fun a ha => Bool.not_eq_true' _ ▸ List.all_eq_true.mp hmisses a ha
  have hmem := hw.mem 0x8000 ⟨7, by decide⟩
  rw [(mem_of_no_data start_init hr hnone).2] at hmem
  exact absurd hmem (by decide)

end Home

end Ting
