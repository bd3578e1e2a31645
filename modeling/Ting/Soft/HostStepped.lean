/-
# `Ting.Soft.HostStepped` — the steps of a node, one by one

`Host.Stepped` lists what a step of a node can do, with the guards that have let it happen;
the invariants of the modules that follow go through its cases.
-/
import Ting.Soft.CacheStep

namespace Ting

/-- The status in which a line waits is `TO_SHARED` or `TO_MODIFIED`. -/
theorem RawMessageType.toStatus_eq (k : RawMessageType) :
    k.toStatus = .toShared ∨ k.toStatus = .toModified := by
  unfold RawMessageType.toStatus
  split
  · exact .inl rfl
  · exact .inr rfl

namespace LineInfo

variable {l l' : LineInfo}

theorem casFlagAndStatus_eq {f f' : Bool} {s s' : CacheStatus}
    (h : l.casFlagAndStatus f s f' s' = some l') :
    l.flag = f ∧ l.status = s ∧ l' = l.setFlagAndStatus f' s' := by
  unfold casFlagAndStatus at h
  split at h
  next hc => exact ⟨hc.1, hc.2, (Option.some.inj h).symm⟩
  next => cases h

/-- What an agent does to a line: it revokes it, downgrades it, or finds it gone. -/
inductive Obeyed (t : RawMessageType) (l : LineInfo) : LineInfo → Prop
  | invalidated (hf : l.flag = false) (hs : l.status = .shared)
      (ht : t = .dir2AgentWriteSharedNotonly ∨ t = .dir2AgentWriteMissShared) :
      Obeyed t l (l.setFlagAndStatus false .invalid)
  | taken (hf : l.flag = false) (hs : l.status = .modified) (ht : t = .dir2AgentWriteMissDirty) :
      Obeyed t l (l.setFlagAndStatus false .invalid)
  | flagged (hf : l.flag = false) (hs : l.status.isTransient)
      (ht : t = .dir2AgentWriteSharedNotonly ∨ t = .dir2AgentWriteMissShared ∨
        t = .dir2AgentWriteMissDirty) :
      Obeyed t l (l.setFlagAndStatus true l.status)
  | downgraded (hf : l.flag = false) (hs : l.status = .modified) (ht : t = .dir2AgentReadMissDirty) :
      Obeyed t l (l.setFlagAndStatus false .shared)
  | downgradedEvict (hf : l.flag = false) (hs : l.status = .toPreserved)
      (ht : t = .dir2AgentReadMissDirty) :
      Obeyed t l (l.setFlagAndStatus false .toShared)
  | gone (hs : l.status = .preserved) (ht : t.isOrder) : Obeyed t l l

theorem Obeyed.of_obey {t : RawMessageType} (h : l.obey t = some l') : Obeyed t l l' := by
  have hflag : (t = .dir2AgentWriteSharedNotonly ∨ t = .dir2AgentWriteMissShared ∨
      t = .dir2AgentWriteMissDirty) → ∀ s, l.status = s → s.isTransient →
      l.casFlagAndStatus false l.status true l.status = some l' → Obeyed t l l' := by
    intro ht s hs htr hc
    obtain ⟨hf, -, rfl⟩ := casFlagAndStatus_eq hc
    exact .flagged hf (hs ▸ htr) ht
  have hgone : l.status = .preserved → t.isOrder → some l = some l' → Obeyed t l l' := by
    rintro hs ht ⟨⟩
    exact .gone hs ht
  have hshared : (t = .dir2AgentWriteSharedNotonly ∨ t = .dir2AgentWriteMissShared) →
      l.casFlagAndStatus false .shared false .invalid = some l' → Obeyed t l l' := by
    intro ht hc
    obtain ⟨hf, hs, rfl⟩ := casFlagAndStatus_eq hc
    exact .invalidated hf hs ht
  unfold obey at h
  split at h
  · split at h
    next => exact hshared (.inl rfl) h
    next hs => exact hflag (.inl rfl) _ hs rfl h
    next hs => exact hflag (.inl rfl) _ hs rfl h
    next hs => exact hflag (.inl rfl) _ hs rfl h
    next hs => exact hgone hs rfl h
    next => cases h
  · split at h
    next => exact hshared (.inr rfl) h
    next hs => exact hflag (.inr (.inl rfl)) _ hs rfl h
    next hs => exact hflag (.inr (.inl rfl)) _ hs rfl h
    next hs => exact hflag (.inr (.inl rfl)) _ hs rfl h
    next hs => exact hgone hs rfl h
    next => cases h
  · split at h
    next =>
      obtain ⟨hf, hs, rfl⟩ := casFlagAndStatus_eq h
      exact .downgraded hf hs rfl
    next =>
      obtain ⟨hf, hs, rfl⟩ := casFlagAndStatus_eq h
      exact .downgradedEvict hf hs rfl
    next hs => exact hgone hs rfl h
    next => cases h
  · split at h
    next =>
      obtain ⟨hf, hs, rfl⟩ := casFlagAndStatus_eq h
      exact .taken hf hs rfl
    next hs => exact hflag (.inr (.inr rfl)) _ hs rfl h
    next hs => exact hflag (.inr (.inr rfl)) _ hs rfl h
    next hs => exact hflag (.inr (.inr rfl)) _ hs rfl h
    next hs => exact hgone hs rfl h
    next => cases h
  · cases h

/-- What the end of a miss or an upgrade does to the line: it finds the flag, or it publishes
the result. -/
theorem publish_eq {kind : RawMessageType} {succ succ' : Bool}
    (h : l.publish kind succ = some (l', succ')) : l.status = kind.toStatus ∧
      (l.flag = true ∧ l' = l.setFlagAndStatus false .invalid ∧ succ' = false ∨
        l.flag = false ∧ succ' = succ ∧
          l' = l.setFlagAndStatus false (if succ then kind.grantedStatus else kind.deniedStatus)) := by
  unfold publish at h
  rcases Option.or_eq_some_iff.mp h with h | ⟨-, h⟩ <;>
    obtain ⟨l₁, hl, he⟩ := Option.map_eq_some_iff.mp h <;> cases he <;>
    obtain ⟨hf, hs, rfl⟩ := casFlagAndStatus_eq hl
  · exact ⟨hs, .inl ⟨hf, rfl, rfl⟩⟩
  · exact ⟨hs, .inr ⟨hf, rfl, rfl⟩⟩

/-- What taking back a refused eviction does to the line. -/
theorem restore_eq {type : EvictType} (h : l.restore type = some l') : l.status.isEvicting ∧
    (type = .evictShared → l.status = .toPreserved) ∧
      (l.flag = true ∧ l' = l.setFlagAndStatus false .invalid ∨
        l.flag = false ∧ l' = l.setFlagAndStatus false
          (if type = .evictDirty ∧ l.status = .toPreserved then .modified else .shared)) := by
  have hcas : ∀ {f : Bool} {s s' : CacheStatus}, l.casFlagAndStatus f s false s' = some l' →
      s.isEvicting → (type = .evictShared → s = .toPreserved) →
      (f = true ∧ s' = .invalid ∨ f = false ∧
        s' = if type = .evictDirty ∧ s = .toPreserved then .modified else .shared) →
      l.status.isEvicting ∧ (type = .evictShared → l.status = .toPreserved) ∧
        (l.flag = true ∧ l' = l.setFlagAndStatus false .invalid ∨
          l.flag = false ∧ l' = l.setFlagAndStatus false
            (if type = .evictDirty ∧ l.status = .toPreserved then .modified else .shared)) := by
    intro f s s' h hs htype hfs
    obtain ⟨rfl, rfl, rfl⟩ := casFlagAndStatus_eq h
    refine ⟨hs, htype, ?_⟩
    rcases hfs with ⟨hf, rfl⟩ | ⟨hf, rfl⟩
    · exact .inl ⟨hf, rfl⟩
    · exact .inr ⟨hf, rfl⟩
  unfold restore at h
  cases type with
  | evictShared =>
      rcases Option.or_eq_some_iff.mp h with h | ⟨-, h⟩
      · exact hcas h rfl (fun _ => rfl) (.inr ⟨rfl, rfl⟩)
      · exact hcas h rfl (fun _ => rfl) (.inl ⟨rfl, rfl⟩)
  | evictDirty =>
      rcases Option.or_eq_some_iff.mp h with h | ⟨-, h⟩ <;>
        rcases Option.or_eq_some_iff.mp h with h | ⟨-, h⟩
      · exact hcas h rfl (fun ht => by cases ht) (.inr ⟨rfl, rfl⟩)
      · exact hcas h rfl (fun ht => by cases ht) (.inl ⟨rfl, rfl⟩)
      · exact hcas h rfl (fun ht => by cases ht) (.inr ⟨rfl, rfl⟩)
      · exact hcas h rfl (fun ht => by cases ht) (.inl ⟨rfl, rfl⟩)

/-- Neither end of a request touches an empty line, nor leaves one, nor the tag or the buffer. -/
theorem publish_full {kind : RawMessageType} {succ succ' : Bool}
    (h : l.publish kind succ = some (l', succ')) : l.status ≠ .preserved ∧
      l'.status ≠ .preserved ∧ l'.tag = l.tag ∧ l'.data = l.data ∧ l'.lock = l.lock := by
  obtain ⟨hs, hl⟩ := publish_eq h
  refine ⟨?_, ?_⟩
  · rw [hs]
    rcases kind.toStatus_eq with hk | hk <;> rw [hk] <;> exact nofun
  · rcases hl with ⟨-, rfl, -⟩ | ⟨-, -, rfl⟩
    · exact ⟨nofun, rfl, rfl, rfl⟩
    · refine ⟨?_, rfl, rfl, rfl⟩
      rw [setFlagAndStatus]
      cases succ <;> cases kind <;> exact nofun

theorem restore_full {type : EvictType} (h : l.restore type = some l') : l.status ≠ .preserved ∧
    l'.status ≠ .preserved ∧ l'.tag = l.tag ∧ l'.data = l.data ∧ l'.lock = l.lock := by
  obtain ⟨hs, -, hl⟩ := restore_eq h
  have hne : l.status ≠ .preserved := by
    intro hp
    rw [hp] at hs
    cases hs
  refine ⟨hne, ?_⟩
  rcases hl with ⟨-, rfl⟩ | ⟨-, rfl⟩
  · exact ⟨nofun, rfl, rfl, rfl⟩
  · refine ⟨?_, rfl, rfl, rfl⟩
    dsimp only [setFlagAndStatus]
    split <;> exact nofun

/-- An agent leaves an empty line empty and any other one not. -/
theorem Obeyed.full {t : RawMessageType} (h : Obeyed t l l') :
    (l'.status = .preserved ↔ l.status = .preserved) ∧ l'.tag = l.tag ∧ l'.data = l.data ∧
      l'.lock = l.lock := by
  cases h with
  | invalidated _ hs | taken _ hs | downgraded _ hs | downgradedEvict _ hs =>
      exact ⟨iff_of_false nofun (by rw [hs]; exact nofun), rfl, rfl, rfl⟩
  | flagged | gone => exact ⟨.rfl, rfl, rfl, rfl⟩

end LineInfo

/-! ## Insertion -/

namespace Host

variable {h h' : Host}

/-- The outcome of `newLine`: nothing, a line in an empty slot, the slot of an invalid line, or
that of a line that goes to the shadow set. -/
inductive Inserted (h : Host) (τ : ThreadId) (ptr : Addr) (exist : Bool)
    (available eviction : Option Slot) : Host → Prop
  | none : Inserted h τ ptr exist available eviction
      (h.setThread τ { h.threads τ with pc := .unlockSetW false })
  | fresh {s : Slot} {d : Addr} {ds : List Addr} (he : exist = false) (hs : available = some s)
      (hd : (h.threads τ).stack = d :: ds) :
      Inserted h τ ptr exist available eviction
        ((h.setLine ⟨false, (h.threads τ).set, s⟩
            (filled (h.threads τ) (h.lines ⟨false, (h.threads τ).set, s⟩) d)).setThread τ
          { h.threads τ with stack := ds, pc := .unlockSetW true })
  | reused {s : Slot} (he : exist = false) (hs : eviction = some s)
      (ha : available = .none ∨ (h.threads τ).stack = [])
      (hi : (h.lines ⟨false, (h.threads τ).set, s⟩).status = .invalid) :
      Inserted h τ ptr exist available eviction
        ((h.setLine ⟨false, (h.threads τ).set, s⟩
            { h.lines ⟨false, (h.threads τ).set, s⟩ with
              tag := (h.threads τ).tag, addr := (h.threads τ).addr }).setThread τ
          { h.threads τ with pc := .unlockSetW true })
  | moved {s : Slot} (he : exist = false) (hs : eviction = some s)
      (ha : available = .none ∨ (h.threads τ).stack = [])
      (hi : (h.lines ⟨false, (h.threads τ).set, s⟩).status ≠ .invalid) :
      Inserted h τ ptr exist available eviction
        (((h.setLine ⟨true, (h.threads τ).set, s⟩
            { h.lines ⟨true, (h.threads τ).set, s⟩ with
              tag := (h.lines ⟨false, (h.threads τ).set, s⟩).tag
              addr := (h.lines ⟨false, (h.threads τ).set, s⟩).addr
              data := (h.lines ⟨false, (h.threads τ).set, s⟩).data
              flag := false
              status := (h.lines ⟨false, (h.threads τ).set, s⟩).status }).setLine
            ⟨false, (h.threads τ).set, s⟩
            (filled (h.threads τ) (h.lines ⟨false, (h.threads τ).set, s⟩)
              ((h.threads τ).stack.head?.getD ptr))).setThread τ
          { h.threads τ with
            startNext := true, next := ⟨true, (h.threads τ).set, s⟩,
            stack := (h.threads τ).stack.tail, pc := .unlockSetW true })

theorem inserted (τ : ThreadId) (ptr : Addr) (exist : Bool) (available eviction : Option Slot) :
    Inserted h τ ptr exist available eviction (h.newLine τ ptr exist available eviction) := by
  have hevict : ∀ {available : Option Slot} {s : Slot}, (available = .none ∨
      (h.threads τ).stack = []) →
      Inserted h τ ptr false available (some s) (h.replaceLine τ ptr s) := by
    intro available s ha
    unfold replaceLine
    extract_lets t r r' line
    split
    next hi => exact .reused rfl rfl ha hi
    next hi => exact .moved rfl rfl ha hi
  have hnone : Inserted h τ ptr exist available eviction
      (h.setThread τ { h.threads τ with pc := .unlockSetW false }) := .none
  unfold newLine
  split
  next hd => exact .fresh rfl rfl hd
  next hno =>
    refine hevict ?_
    rename_i available _ _ _ _ _
    cases available with
    | none => exact .inl rfl
    | some s =>
        refine .inr (List.eq_nil_iff_forall_not_mem.mpr fun d hd => ?_)
        obtain ⟨d, ds, hd⟩ := List.exists_cons_of_ne_nil (List.ne_nil_of_mem hd)
        exact hno s d ds rfl hd
  next => exact hnone

end Host

/-- The thread that acts. -/
def HostAction.thread? : HostAction → Option ThreadId
  | call τ _ _ _ | thread τ | insert τ _ | send τ _ | receive τ _ => some τ
  | _ => none

/-- The agent that acts. -/
def HostAction.agent? : HostAction → Option AgentId
  | take a _ | agent a => some a
  | _ => none

/-! ## Steps -/

namespace Host

variable {h h' : Host}

/-- How a lookup ends: at a slot that holds the tag, or behind the last one. -/
inductive Found (h : Host) (shadow : Bool) (i : SetIndex) (tag : BitVec 64) :
    List Slot → Option Slot → Prop
  | none : Found h shadow i tag [] none
  | some {s : Slot} {todo : List Slot} (hs : (h.lines ⟨shadow, i, s⟩).holds tag) :
      Found h shadow i tag (s :: todo) (some s)

/-- What a step of a node does, one constructor for each case. -/
inductive Stepped (h : Host) : HostAction → Host → Prop
  | call {τ : ThreadId} {drain write : Bool} {addr : Block} (hpc : (h.threads τ).pc = .idle) :
      Stepped h (.call τ drain write addr) (h.setThread τ { h.threads τ with
        addr := addr, write := write, drain := drain, succ := false,
        pc := if drain then (if (h.threads τ).waitCur then .waitEvict else .idle)
          else .startEvict })
  | beginEvict {τ : ThreadId} (hpc : (h.threads τ).pc = .startEvict)
      (hn : (h.threads τ).startNext) :
      Stepped h (.thread τ) (h.setThread τ ((h.threads τ).beginEvict false))
  | noEvict {τ : ThreadId} (hpc : (h.threads τ).pc = .startEvict)
      (hn : (h.threads τ).startNext = false) :
      Stepped h (.thread τ) (h.setThread τ { h.threads τ with pc := .lockSet })
  | evictInvalid {τ : ThreadId} {w : Bool} (hpc : (h.threads τ).pc = .evictTry w)
      (hs : (h.lines (h.threads τ).cur).status = .invalid) :
      Stepped h (.thread τ)
        (h.setThread τ { h.threads τ with waitCur := false, pc := .evictDiscard w })
  | evictClaim {τ : ThreadId} {w : Bool} (hpc : (h.threads τ).pc = .evictTry w)
      (hs : (h.lines (h.threads τ).cur).status ≠ .invalid) :
      Stepped h (.thread τ)
        ((h.setLine (h.threads τ).cur ((h.lines (h.threads τ).cur).setFlagAndStatus
          (h.lines (h.threads τ).cur).flag .toPreserved)).setThread τ { h.threads τ with
            curType := if (h.lines (h.threads τ).cur).status = .shared then .evictShared
              else .evictDirty
            pc := .evictLock w })
  | evictDiscard {τ : ThreadId} {w : Bool} (hpc : (h.threads τ).pc = .evictDiscard w) :
      Stepped h (.thread τ)
        ((h.setLine (h.threads τ).cur { h.lines (h.threads τ).cur with data := 0 }).setThread τ
          { h.threads τ with
            stack := (h.lines (h.threads τ).cur).data :: (h.threads τ).stack
            pc := .evictDrop w })
  | evictDrop {τ : ThreadId} {w : Bool} (hpc : (h.threads τ).pc = .evictDrop w) :
      Stepped h (.thread τ)
        ((h.setLine (h.threads τ).cur
          ((h.lines (h.threads τ).cur).setFlagAndStatus false .preserved)).setThread τ
          { h.threads τ with pc := if w then .evictEnd else .lockSet })
  | evictLock {τ : ThreadId} {w : Bool} (hpc : (h.threads τ).pc = .evictLock w)
      (hl : (h.lines (h.threads τ).cur).lock = 0) :
      Stepped h (.thread τ)
        ((h.setLine (h.threads τ).cur { h.lines (h.threads τ).cur with lock := 1 }).setThread τ
          { h.threads τ with pc := .evictSend w })
  | evictSend {τ : ThreadId} {w : Bool} {junk : CtrlMsg} (hpc : (h.threads τ).pc = .evictSend w) :
      Stepped h (.send τ junk)
        (h.setThread τ { h.threads τ with pc := if w then .waitEvict else .lockSet })
  | lockSet {τ : ThreadId} (hpc : (h.threads τ).pc = .lockSet)
      (hl : h.setLock (h.threads τ).set ≠ 1) :
      Stepped h (.thread τ)
        ((h.setSetLock (h.threads τ).set (h.setLock (h.threads τ).set + 2)).setThread τ
          { h.threads τ with pc := .find (List.finRange 8) })
  | findSkip {τ : ThreadId} {s : Slot} {todo : List Slot}
      (hpc : (h.threads τ).pc = .find (s :: todo))
      (hn : (h.lines ⟨false, (h.threads τ).set, s⟩).holds (h.threads τ).tag = false) :
      Stepped h (.thread τ) (h.setThread τ { h.threads τ with pc := .find todo })
  | found {τ : ThreadId} {todo : List Slot} {line : Option Slot}
      (hpc : (h.threads τ).pc = .find todo)
      (hf : Found h false (h.threads τ).set (h.threads τ).tag todo line) :
      Stepped h (.thread τ) (h.setThread τ
        { h.threads τ with pc := .findShadow line (List.finRange 8) })
  | shadowSkip {τ : ThreadId} {line : Option Slot} {s : Slot} {todo : List Slot}
      (hpc : (h.threads τ).pc = .findShadow line (s :: todo))
      (hn : (h.lines ⟨true, (h.threads τ).set, s⟩).holds (h.threads τ).tag = false) :
      Stepped h (.thread τ) (h.setThread τ { h.threads τ with pc := .findShadow line todo })
  | looked {τ : ThreadId} {line shadow : Option Slot} {todo : List Slot}
      (hpc : (h.threads τ).pc = .findShadow line todo)
      (hf : Found h true (h.threads τ).set (h.threads τ).tag todo shadow) :
      Stepped h (.thread τ) (h.setThread τ { h.threads τ with
        dontWait := false, pc := h.afterLookup (h.threads τ) line shadow })
  | claim {τ : ThreadId} {r : LineRef} {k : RawMessageType}
      (hpc : (h.threads τ).pc = .cas r ∧ (k = .rReadMiss ∧ (h.threads τ).write = false ∨
          k = .rWriteShared ∧ (h.threads τ).write) ∨
        (h.threads τ).pc = .casInvalid r ∧ k = .rWriteMiss)
      (hf : (h.lines r).flag = false)
      (hs : (h.lines r).status = if k = .rWriteShared then .shared else .invalid) :
      Stepped h (.thread τ)
        ((h.setLine r ((h.lines r).setFlagAndStatus false k.toStatus)).setThread τ
          { h.threads τ with pc := .unlock (.request r k) })
  | casFail {τ : ThreadId} {r : LineRef} {pc : Pc}
      (hpc : (h.threads τ).pc = .cas r ∧ (pc = .casInvalid r ∧ (h.threads τ).write ∨
          pc = .unlock (.line r)) ∨
        (h.threads τ).pc = .casInvalid r ∧ pc = .unlock (.line r)) :
      Stepped h (.thread τ) (h.setThread τ { h.threads τ with pc := pc })
  | unlock {τ : ThreadId} {k : AfterLookup} (hpc : (h.threads τ).pc = .unlock k) :
      Stepped h (.thread τ)
        ((h.setSetLock (h.threads τ).set (h.setLock (h.threads τ).set - 2)).setThread τ
          { h.threads τ with pc := k.pc })
  | lockSetW {τ : ThreadId} (hpc : (h.threads τ).pc = .lockSetW)
      (hl : h.setLock (h.threads τ).set = 0) :
      Stepped h (.thread τ) ((h.setSetLock (h.threads τ).set 1).setThread τ
        { h.threads τ with pc := .scan (List.finRange 8) false none none })
  | scan {τ : ThreadId} {s : Slot} {todo : List Slot} {exist : Bool}
      {available eviction : Option Slot}
      (hpc : (h.threads τ).pc = .scan (s :: todo) exist available eviction) :
      Stepped h (.thread τ) (h.setThread τ { h.threads τ with
        pc := h.scanSlot (h.threads τ) s todo exist available eviction })
  | insert {τ : ThreadId} {ptr : Addr} {exist : Bool} {available eviction : Option Slot} {h' : Host}
      (hpc : (h.threads τ).pc = .scan [] exist available eviction)
      (hi : Inserted h τ ptr exist available eviction h') : Stepped h (.insert τ ptr) h'
  | unlockSetW {τ : ThreadId} {new : Bool} (hpc : (h.threads τ).pc = .unlockSetW new) :
      Stepped h (.thread τ) ((h.setSetLock (h.threads τ).set 0).setThread τ
        { h.threads τ with dontWait := new, pc := .bodyEnd })
  | lineLock {τ : ThreadId} {r : LineRef} {hit : Bool} {v : ℕ}
      (hpc : (h.threads τ).pc = .lineLock r hit)
      (hl : (h.threads τ).excludes r ∧ (h.lines r).lock = 0 ∧ v = 1 ∨
        (h.threads τ).excludes r = false ∧ (h.lines r).lock ≠ 1 ∧ v = (h.lines r).lock + 2) :
      Stepped h (.thread τ) ((h.setLine r { h.lines r with lock := v }).setThread τ
        { h.threads τ with pc := .lineCheck r hit })
  | checked {τ : ThreadId} {r : LineRef} {hit : Bool} (hpc : (h.threads τ).pc = .lineCheck r hit)
      (hs : (h.lines r).status.permits (h.threads τ).write) :
      Stepped h (.thread τ) (h.setThread τ
        { h.threads τ with succ := true, dontWait := hit, pc := .copy r })
  | unchecked {τ : ThreadId} {r : LineRef} {hit : Bool} (hpc : (h.threads τ).pc = .lineCheck r hit)
      (hs : (h.lines r).status.permits (h.threads τ).write = false) :
      Stepped h (.thread τ) (h.setThread τ { h.threads τ with succ := false, pc := .lineUnlock r })
  | copy {τ : ThreadId} {r : LineRef} (hpc : (h.threads τ).pc = .copy r) :
      Stepped h (.thread τ)
        (h.setThread τ { h.threads τ with pc := .copying r (h.lines r).data })
  | copied {τ : ThreadId} {r : LineRef} {d : Addr} (hpc : (h.threads τ).pc = .copying r d) :
      Stepped h (.thread τ) (h.setThread τ { h.threads τ with pc := .lineUnlock r })
  | lineUnlock {τ : ThreadId} {r : LineRef} (hpc : (h.threads τ).pc = .lineUnlock r) :
      Stepped h (.thread τ) ((h.setLine r { h.lines r with
        lock := if (h.threads τ).excludes r then 0 else (h.lines r).lock - 2 }).setThread τ
          { h.threads τ with pc := .bodyEnd })
  | request {τ : ThreadId} {r : LineRef} {kind : RawMessageType} {junk : CtrlMsg}
      (hpc : (h.threads τ).pc = .request r kind) :
      Stepped h (.send τ junk)
        (h.setThread τ { h.threads τ with pc := .await r kind false false })
  | reply {τ : ThreadId} {r : LineRef} {kind : RawMessageType} {hasData granted : Bool}
      {m : CtrlMsg} (hpc : (h.threads τ).pc = .await r kind hasData granted) :
      Stepped h (.receive τ m) (h.setThread τ ((h.threads τ).onReply r kind hasData granted
        (h.lines (h.threads τ).cur).tag m))
  | spun {τ : ThreadId} {r : LineRef} {kind : RawMessageType}
      (hpc : (h.threads τ).pc = .spin r kind) (hf : (h.lines r).flag) :
      Stepped h (.thread τ) (h.setThread τ { h.threads τ with pc := .finish r kind false })
  | finish {τ : ThreadId} {r : LineRef} {kind : RawMessageType} {succ succ' : Bool} {l : LineInfo}
      (hpc : (h.threads τ).pc = .finish r kind succ)
      (hp : (h.lines r).publish kind succ = some (l, succ')) :
      Stepped h (.thread τ) ((h.setLine r l).setThread τ { h.threads τ with
        succ := succ', pc := if succ' then .lineLock r false else .bodyEnd })
  | bodyEnd {τ : ThreadId} (hpc : (h.threads τ).pc = .bodyEnd) :
      Stepped h (.thread τ) (h.setThread τ { h.threads τ with
        pc := if !(h.threads τ).dontWait && (h.threads τ).waitCur then .waitEvict
          else (h.threads τ).loop })
  | unstash {τ : ThreadId} {m : CtrlMsg} (hpc : (h.threads τ).pc = .waitEvict)
      (hm : (h.threads τ).stash = some m) :
      Stepped h (.thread τ) (h.setThread τ ({ h.threads τ with stash := none }.onEvictReply
        (h.lines (h.threads τ).cur).tag m))
  | evictReply {τ : ThreadId} {m : CtrlMsg} (hpc : (h.threads τ).pc = .waitEvict)
      (hm : (h.threads τ).stash = none) :
      Stepped h (.receive τ m) (h.setThread τ ((h.threads τ).onEvictReply
        (h.lines (h.threads τ).cur).tag m))
  | swallow {τ : ThreadId} {m : CtrlMsg} (hpc : (h.threads τ).pc = .swallow) :
      Stepped h (.receive τ m) h
  | restored {τ : ThreadId} {l : LineInfo} (hpc : (h.threads τ).pc = .evictRestore)
      (hl : (h.lines (h.threads τ).cur).restore (h.threads τ).curType = some l) :
      Stepped h (.thread τ)
        ((h.setLine (h.threads τ).cur l).setThread τ (h.threads τ).retryEvict)
  | evictSpun {τ : ThreadId} (hpc : (h.threads τ).pc = .evictSpin)
      (hf : (h.lines (h.threads τ).cur).flag) :
      Stepped h (.thread τ) (h.setThread τ { h.threads τ with pc := .evictDiscard true })
  | evictEnd {τ : ThreadId} (hpc : (h.threads τ).pc = .evictEnd) :
      Stepped h (.thread τ)
        ((h.setLine (h.threads τ).cur { h.lines (h.threads τ).cur with lock := 0 }).setThread τ
          { h.threads τ with waitCur := false, pc := (h.threads τ).loop })
  | take {a : AgentId} {m : CtrlMsg} (hpc : h.agents a = .idle) :
      Stepped h (.take a m) (h.setAgent a (.lockSet m))
  | agentLock {a : AgentId} {m : CtrlMsg} (hpc : h.agents a = .lockSet m)
      (hl : h.setLock (calLineSet m.clineTag) ≠ 1) :
      Stepped h (.agent a) ((h.setSetLock (calLineSet m.clineTag)
        (h.setLock (calLineSet m.clineTag) + 2)).setAgent a (.find m (List.finRange 8)))
  | agentSkip {a : AgentId} {m : CtrlMsg} {s : Slot} {todo : List Slot}
      (hpc : h.agents a = .find m (s :: todo))
      (hn : (h.lines ⟨false, calLineSet m.clineTag, s⟩).holds m.clineTag = false) :
      Stepped h (.agent a) (h.setAgent a (.find m todo))
  | agentFound {a : AgentId} {m : CtrlMsg} {todo : List Slot} {line : Option Slot}
      (hpc : h.agents a = .find m todo)
      (hf : Found h false (calLineSet m.clineTag) m.clineTag todo line) :
      Stepped h (.agent a) (h.setAgent a (.findShadow m line (List.finRange 8)))
  | agentShadowSkip {a : AgentId} {m : CtrlMsg} {line : Option Slot} {s : Slot} {todo : List Slot}
      (hpc : h.agents a = .findShadow m line (s :: todo))
      (hn : (h.lines ⟨true, calLineSet m.clineTag, s⟩).holds m.clineTag = false) :
      Stepped h (.agent a) (h.setAgent a (.findShadow m line todo))
  | agentLooked {a : AgentId} {m : CtrlMsg} {line shadow : Option Slot} {todo : List Slot}
      (hpc : h.agents a = .findShadow m line todo)
      (hf : Found h true (calLineSet m.clineTag) m.clineTag todo shadow) :
      Stepped h (.agent a) (h.setAgent a (afterFind m line shadow))
  | agentObey {a : AgentId} {m : CtrlMsg} {r : LineRef} {l : LineInfo}
      (hpc : h.agents a = .loop m r) (ho : m.mtype.isOrder)
      (hl : LineInfo.Obeyed m.mtype (h.lines r) l) :
      Stepped h (.agent a) ((h.setLine r l).setAgent a (.unlock m))
  | agentFault {a : AgentId} {m : CtrlMsg} {r : LineRef} (hpc : h.agents a = .loop m r)
      (ho : m.mtype.isOrder = false) : Stepped h (.agent a) (h.setAgent a .fault)
  | agentUnlock {a : AgentId} {m : CtrlMsg} (hpc : h.agents a = .unlock m) :
      Stepped h (.agent a) ((h.setSetLock (calLineSet m.clineTag)
        (h.setLock (calLineSet m.clineTag) - 2)).setAgent a .idle)

theorem Stepped.of_threadStep {τ : ThreadId} (hs : h.threadStep τ = some h') :
    Stepped h (.thread τ) h' := by
  unfold threadStep at hs
  extract_lets t cur go at hs
  cases hpc : (h.threads τ).pc <;> rw [show t.pc = _ from hpc] at hs
  case startEvict =>
    cases hs
    split
    next hn => exact .beginEvict hpc hn
    next hn => exact .noEvict hpc (by simpa using hn)
  case evictTry w =>
    dsimp only at hs
    split at hs
    next hi => cases hs; exact .evictInvalid hpc hi
    next hi =>
      obtain ⟨l, hl, rfl⟩ := Option.map_eq_some_iff.mp hs
      obtain ⟨-, -, rfl⟩ := LineInfo.casFlagAndStatus_eq hl
      exact .evictClaim hpc hi
  case evictDiscard w => cases hs; exact .evictDiscard hpc
  case evictDrop w => cases hs; exact .evictDrop hpc
  case evictLock w =>
    dsimp only at hs
    split at hs
    next hl => cases hs; exact .evictLock hpc hl
    next => cases hs
  case lockSet =>
    dsimp only at hs
    split at hs
    next hl => cases hs; exact .lockSet hpc hl
    next => cases hs
  case find todo =>
    cases hs
    cases todo with
    | nil => exact .found hpc .none
    | cons s todo =>
        dsimp only [findLine]
        split
        next hh => exact .found hpc (.some hh)
        next hh => exact .findSkip hpc (by simpa using hh)
  case findShadow line todo =>
    cases hs
    cases todo with
    | nil => exact .looked hpc .none
    | cons s todo =>
        dsimp only [findShadowLine]
        split
        next hh => exact .looked hpc (.some hh)
        next hh => exact .shadowSkip hpc (by simpa using hh)
  case cas r =>
    dsimp only at hs
    split at hs
    next hw =>
      split at hs
      next l hl =>
        obtain ⟨hf, hst, rfl⟩ := LineInfo.casFlagAndStatus_eq hl
        cases hs
        exact .claim (k := .rWriteShared) (.inl ⟨hpc, .inr ⟨rfl, hw⟩⟩) hf hst
      next => cases hs; exact .casFail (.inl ⟨hpc, .inl ⟨rfl, hw⟩⟩)
    next hw =>
      split at hs
      next l hl =>
        obtain ⟨hf, hst, rfl⟩ := LineInfo.casFlagAndStatus_eq hl
        cases hs
        exact .claim (k := .rReadMiss) (.inl ⟨hpc, .inl ⟨rfl, by simpa using hw⟩⟩) hf hst
      next => cases hs; exact .casFail (.inl ⟨hpc, .inr rfl⟩)
  case casInvalid r =>
    dsimp only at hs
    split at hs
    next l hl =>
      obtain ⟨hf, hst, rfl⟩ := LineInfo.casFlagAndStatus_eq hl
      cases hs
      exact .claim (k := .rWriteMiss) (.inr ⟨hpc, rfl⟩) hf hst
    next => cases hs; exact .casFail (.inr ⟨hpc, rfl⟩)
  case unlock k => cases hs; exact .unlock hpc
  case lockSetW =>
    dsimp only at hs
    split at hs
    next hl => cases hs; exact .lockSetW hpc hl
    next => cases hs
  case scan todo exist available eviction =>
    cases todo with
    | nil => cases hs
    | cons s todo => cases hs; exact .scan hpc
  case unlockSetW new => cases hs; exact .unlockSetW hpc
  case lineLock r hit =>
    dsimp only at hs
    split at hs
    next hw =>
      split at hs
      next hl => cases hs; exact .lineLock hpc (.inl ⟨hw, hl, rfl⟩)
      next => cases hs
    next hw =>
      split at hs
      next hl => cases hs; exact .lineLock hpc (.inr ⟨by simpa using hw, hl, rfl⟩)
      next => cases hs
  case lineCheck r hit =>
    dsimp only at hs
    split at hs
    next hp => cases hs; exact .checked hpc hp
    next hp => cases hs; exact .unchecked hpc (by simpa using hp)
  case copy r => cases hs; exact .copy hpc
  case copying r d => cases hs; exact .copied hpc
  case lineUnlock r => cases hs; exact .lineUnlock hpc
  case spin r kind =>
    dsimp only at hs
    split at hs
    next hf => cases hs; exact .spun hpc hf
    next => cases hs
  case finish r kind succ =>
    obtain ⟨⟨l, succ'⟩, hl, rfl⟩ := Option.map_eq_some_iff.mp hs
    exact .finish hpc hl
  case bodyEnd => cases hs; exact .bodyEnd hpc
  case waitEvict =>
    obtain ⟨m, hm, rfl⟩ := Option.map_eq_some_iff.mp hs
    exact .unstash hpc hm
  case evictRestore =>
    obtain ⟨l, hl, rfl⟩ := Option.map_eq_some_iff.mp hs
    exact .restored hpc hl
  case evictSpin =>
    dsimp only at hs
    split at hs
    next hf => cases hs; exact .evictSpun hpc hf
    next => cases hs
  case evictEnd => cases hs; exact .evictEnd hpc
  all_goals cases hs

theorem Stepped.of_agentStep {a : AgentId} (hs : h.agentStep a = some h') :
    Stepped h (.agent a) h' := by
  unfold agentStep at hs
  split at hs
  next m hpc =>
    simp only at hs
    split at hs
    next hl => cases hs; exact .agentLock hpc hl
    next => cases hs
  next m todo hpc =>
    cases hs
    cases todo with
    | nil => exact .agentFound hpc .none
    | cons s todo =>
        dsimp only [findLineForAgent]
        split
        next hh => exact .agentFound hpc (.some hh)
        next hh => exact .agentSkip hpc (by simpa using hh)
  next m line todo hpc =>
    cases hs
    cases todo with
    | nil => exact .agentLooked hpc .none
    | cons s todo =>
        dsimp only [findShadowForAgent]
        split
        next hh => exact .agentLooked hpc (.some hh)
        next hh => exact .agentShadowSkip hpc (by simpa using hh)
  next m r hpc =>
    split at hs
    next ho =>
      obtain ⟨l, hl, rfl⟩ := Option.map_eq_some_iff.mp hs
      exact .agentObey hpc ho (.of_obey hl)
    next ho => cases hs; exact .agentFault hpc (by simpa using ho)
  next m hpc => cases hs; exact .agentUnlock hpc
  next => cases hs

theorem Stepped.of_step {a : HostAction} (hs : h.step a = some h') : Stepped h a h' := by
  cases a with
  | call τ drain write addr =>
      simp only [step, Host.call] at hs
      split at hs
      next hpc => cases hs; exact .call hpc
      next => cases hs
  | thread τ => exact .of_threadStep hs
  | insert τ ptr =>
      simp only [step] at hs
      cases hpc : (h.threads τ).pc <;> rw [hpc] at hs
      case scan todo exist available eviction =>
        cases todo with
        | nil => cases hs; exact .insert hpc (inserted _ _ _ _ _)
        | cons s todo => cases hs
      all_goals cases hs
  | send τ junk =>
      simp only [step] at hs
      split at hs
      next hsend =>
        cases hs
        unfold sends at hsend
        extract_lets t at hsend
        cases hpc : (h.threads τ).pc <;> rw [show t.pc = _ from hpc] at hsend
        case evictSend w =>
          simp only [afterSend, hpc]
          exact .evictSend hpc
        case request r kind =>
          simp only [afterSend, hpc]
          exact .request hpc
        all_goals cases hsend
      next => cases hs
  | receive τ m =>
      change h.receive τ m = some h' at hs
      unfold Host.receive at hs
      extract_lets t at hs
      cases hpc : (h.threads τ).pc <;> rw [show t.pc = _ from hpc] at hs
      case await => cases hs; exact .reply hpc
      case waitEvict =>
        dsimp only at hs
        split at hs
        next hm => cases hs; exact .evictReply hpc hm
        next => cases hs
      case swallow => cases hs; exact .swallow hpc
      all_goals cases hs
  | take a m =>
      simp only [step] at hs
      split at hs
      next hpc => cases hs; exact .take hpc
      next => cases hs
  | agent a => exact .of_agentStep hs

/-- The threads and agents that do not act stay where they are. -/
theorem Stepped.threads_other {a : HostAction} (hs : Stepped h a h') {τ : ThreadId}
    (hne : ∀ k, a.thread? = some k → k ≠ τ) : h'.threads τ = h.threads τ := by
  cases hs with
  | insert hpc hi => cases hi <;> exact Function.update_of_ne (hne _ rfl).symm _ _
  | swallow | take | agentLock | agentSkip | agentFound | agentShadowSkip | agentLooked
  | agentObey | agentFault | agentUnlock => rfl
  | _ => exact Function.update_of_ne (hne _ rfl).symm _ _

theorem Stepped.agents_other {a : HostAction} (hs : Stepped h a h') {i : AgentId}
    (hne : ∀ k, a.agent? = some k → k ≠ i) : h'.agents i = h.agents i := by
  cases hs with
  | insert hpc hi => cases hi <;> rfl
  | take | agentLock | agentSkip | agentFound | agentShadowSkip | agentLooked | agentObey
  | agentFault | agentUnlock =>
      exact Function.update_of_ne (hne _ rfl).symm _ _
  | _ => rfl

end Host

/-! ## Positions

Where the functions that choose a position can lead.
-/

section Positions

variable {t : Thread} {r : LineRef} {kind : RawMessageType} {hasData granted : Bool}

theorem loop_cases : t.loop = .idle ∨ t.loop = .startEvict := by
  unfold Thread.loop
  split
  · exact .inl rfl
  · exact .inr rfl

theorem afterLookup_cases (h : Host) (t : Thread) (line shadow : Option Slot) :
    (∃ k, h.afterLookup t line shadow = .unlock k ∧ (k = .insert ∨ k = .skip ∨
        k = .fail ∧ (∃ s s', line = some s ∧ shadow = some s') ∨
        ∃ s, shadow = some s ∧ k = .line ⟨true, t.set, s⟩)) ∨
      ∃ s, line = some s ∧ shadow = none ∧ h.afterLookup t line shadow = .cas ⟨false, t.set, s⟩ := by
  unfold Host.afterLookup
  split
  · exact .inl ⟨_, rfl, .inl rfl⟩
  · split
    · exact .inl ⟨_, rfl, .inr (.inl rfl)⟩
    · exact .inl ⟨_, rfl, .inr (.inr (.inr ⟨_, rfl, rfl⟩))⟩
  · exact .inl ⟨_, rfl, .inr (.inr (.inl ⟨rfl, _, _, rfl, rfl⟩))⟩
  · exact .inr ⟨_, rfl, rfl, rfl⟩

/-- What one round of `newLine`'s loop finds out. -/
theorem scanSlot_cases (h : Host) (t : Thread) (s : Slot) (todo : List Slot) (exist : Bool)
    (available eviction : Option Slot) : ∃ exist' available' eviction',
      h.scanSlot t s todo exist available eviction = .scan todo exist' available' eviction' ∧
        (exist' = false → exist = false ∧ (h.lines ⟨false, t.set, s⟩).holds t.tag = false ∧
          (h.lines ⟨true, t.set, s⟩).holds t.tag = false) ∧
        (available' = available ∨
          available' = some s ∧ (h.lines ⟨false, t.set, s⟩).status = .preserved) ∧
        (eviction' = eviction ∨ eviction' = some s ∧
          (h.lines ⟨false, t.set, s⟩).status.isStable ∧
            (h.lines ⟨true, t.set, s⟩).status = .preserved) := by
  unfold Host.scanSlot
  extract_lets line shadow
  split
  next => exact ⟨_, _, _, rfl, fun he => Bool.noConfusion he, .inl rfl, .inl rfl⟩
  next hn =>
    obtain ⟨hl, hs⟩ := not_or.mp hn
    have hexist : exist = false → exist = false ∧ line.holds t.tag = false ∧
        shadow.holds t.tag = false :=
      fun he => ⟨he, Bool.eq_false_iff.mpr hl, Bool.eq_false_iff.mpr hs⟩
    split
    next hp => exact ⟨_, _, _, rfl, hexist, .inr ⟨rfl, hp⟩, .inl rfl⟩
    next =>
      split
      next hp => exact ⟨_, _, _, rfl, hexist, .inl rfl, .inr ⟨rfl, hp⟩⟩
      next => exact ⟨_, _, _, rfl, hexist, .inl rfl, .inl rfl⟩

theorem replySwitch_cases (r : LineRef) (kind : RawMessageType) (hasData granted : Bool)
    (m : RawMessageType) :
    replySwitch r kind hasData granted m = .swallow ∨
      replySwitch r kind hasData granted m = .fault ∨
      ∃ k, k.toStatus = kind.toStatus ∧ ((∃ succ, replySwitch r kind hasData granted m
          = .finish r k succ) ∨ replySwitch r kind hasData granted m = .spin r k ∨
        ∃ d g, replySwitch r kind hasData granted m = .await r k d g) := by
  unfold replySwitch
  split
  · unfold readMiss
    split
    · exact .inr (.inr ⟨_, rfl, .inl ⟨_, rfl⟩⟩)
    · exact .inr (.inr ⟨_, rfl, .inl ⟨_, rfl⟩⟩)
    · exact .inr (.inr ⟨_, rfl, .inl ⟨_, rfl⟩⟩)
    · exact .inr (.inr ⟨_, rfl, .inr (.inl rfl)⟩)
    · exact .inl rfl
  · unfold writeMiss
    split
    · exact .inr (.inr ⟨_, rfl, .inl ⟨_, rfl⟩⟩)
    · exact .inr (.inr ⟨_, rfl, .inl ⟨_, rfl⟩⟩)
    · split
      · exact .inr (.inl rfl)
      · split
        · exact .inr (.inr ⟨_, rfl, .inl ⟨_, rfl⟩⟩)
        · exact .inr (.inr ⟨_, rfl, .inr (.inr ⟨_, _, rfl⟩)⟩)
    · split
      · exact .inr (.inr ⟨_, rfl, .inl ⟨_, rfl⟩⟩)
      · exact .inr (.inr ⟨_, rfl, .inr (.inr ⟨_, _, rfl⟩)⟩)
    · exact .inr (.inr ⟨_, rfl, .inl ⟨_, rfl⟩⟩)
    · exact .inr (.inr ⟨_, rfl, .inr (.inl rfl)⟩)
    · exact .inl rfl
  next hread _ =>
    have hkind : RawMessageType.toStatus .rWriteShared = kind.toStatus := by
      cases kind <;> first | rfl | exact absurd rfl hread
    unfold writeShared
    split
    · exact .inr (.inr ⟨_, hkind, .inl ⟨_, rfl⟩⟩)
    · exact .inr (.inr ⟨_, hkind, .inl ⟨_, rfl⟩⟩)
    · exact .inr (.inr ⟨_, hkind, .inl ⟨_, rfl⟩⟩)
    · exact .inr (.inr ⟨_, hkind, .inr (.inl rfl)⟩)
    · exact .inl rfl

/-- `readMiss`, `writeMiss` and `writeShared` follow their switch, keep the message for
`wait_evict`, or receive for ever. -/
theorem onReply_cases (t : Thread) (r : LineRef) (kind : RawMessageType) (hasData granted : Bool)
    (curTag : BitVec 64) (m : CtrlMsg) :
    (∃ pc, t.onReply r kind hasData granted curTag m = { t with pc := pc } ∧
        (pc = replySwitch r kind hasData granted m.mtype ∨ pc = .swallow)) ∨
      t.onReply r kind hasData granted curTag m = { t with stash := some m } ∧ t.waitCur := by
  unfold Thread.onReply
  split
  · exact .inl ⟨_, rfl, .inl rfl⟩
  · split
    next hw => exact .inr ⟨rfl, hw.1⟩
    next => exact .inl ⟨_, rfl, .inr rfl⟩

theorem evictSwitch_cases {m : RawMessageType} :
    evictSwitch m = .evictDiscard true ∨ evictSwitch m = .evictRestore ∨
      evictSwitch m = .evictSpin ∨ evictSwitch m = .fault := by
  unfold evictSwitch
  split
  · exact .inl rfl
  · exact .inl rfl
  · exact .inr (.inl rfl)
  · exact .inr (.inr (.inl rfl))
  · exact .inr (.inr (.inr rfl))

theorem onEvictReply_cases (t : Thread) (tag : BitVec 64) (m : CtrlMsg) : ∃ pc,
    t.onEvictReply tag m = { t with pc := pc } ∧ (pc = .evictDiscard true ∨
      pc = .evictRestore ∨ pc = .evictSpin ∨ pc = .fault) := by
  refine ⟨_, rfl, ?_⟩
  split
  · exact evictSwitch_cases
  · exact .inr (.inr (.inr rfl))

end Positions

/-! ## Invariants -/

/-- The rule by which the invariants of a node are proved. -/
theorem Host.invariantWhen {apptNum : ℕ} {ds : List Addr} {ok : Host → HostAction → Prop}
    {P : Host → Prop} (hinit : ∀ h, Host.Init apptNum ds h → P h)
    (hstep : ∀ (h : Host) a h', (host apptNum ds).Reachable h → ok h a → P h → Stepped h a h' →
      P h') {h : Host} (hr : (host apptNum ds).ReachableWhen ok h) : P h :=
  hr.invariant hinit fun h a h' hr hok hp hs => hstep h a h' hr.reachable hok hp (.of_step hs)

/-- The same, for runs in which every step is permitted. -/
theorem Host.invariant {apptNum : ℕ} {ds : List Addr} {P : Host → Prop}
    (hinit : ∀ h, Host.Init apptNum ds h → P h)
    (hstep : ∀ (h : Host) a h', (host apptNum ds).Reachable h → P h → Stepped h a h' → P h')
    {h : Host} (hr : (host apptNum ds).Reachable h) : P h :=
  Host.invariantWhen hinit (fun h a h' hr _ hp hs => hstep h a h' hr hp hs) hr

end Ting
