/-
# `Ting.Hls.DdrPort` — entries in DDR memory

`ddrInstHLS_aw_w` sends an entry to memory as a burst of two words, one a tick.  `ddrInstHLS_ar`
asks for an entry, and `ddrInstHLS_r` puts it together from the two words that come back, whenever
each of them does.

The memory is behind an AXI port.  It carries out the bursts of a channel in their order, a write
once all its words have come; nothing else is known of when it does so.  What it keeps is
`DdrPort.Lawful`: a burst that asks for what a burst has written gets its words, unless another has
written to one of the same bytes since.  `writing`, `written`, `commands`, `asked` and `answers` are
histories.
-/
import Ting.Hls.DdrCodec

namespace Ting

open BitRange

/-! ## Bursts -/

/-- `struct_ddr_aw`. -/
structure StructDdrAw where
  awaddr : BitVec 34
  awburst : BitVec 2
  awcache : BitVec 4
  awid : BitVec 6
  awlen : BitVec 8
  awlock : BitVec 2
  awprot : BitVec 3
  awqos : BitVec 4
  awsize : BitVec 3

/-- `struct_ddr_ar`. -/
structure StructDdrAr where
  araddr : BitVec 34
  arburst : BitVec 2
  arcache : BitVec 4
  arid : BitVec 6
  arlen : BitVec 8
  arlock : BitVec 2
  arprot : BitVec 3
  arqos : BitVec 4
  arsize : BitVec 3

/-- Where a burst begins, the number of its words less one, the logarithm of their size in bytes and
how the address goes on, which is 1 for ascending. -/
structure AxiBurst where
  addr : BitVec 34
  len : BitVec 8
  size : BitVec 3
  burst : BitVec 2

def StructDdrAw.shape (a : StructDdrAw) : AxiBurst := ⟨a.awaddr, a.awlen, a.awsize, a.awburst⟩

def StructDdrAr.shape (a : StructDdrAr) : AxiBurst := ⟨a.araddr, a.arlen, a.arsize, a.arburst⟩

namespace AxiBurst

/-- The bytes of a burst. -/
def bytes (b : AxiBurst) : ℕ := (b.len.toNat + 1) * 2 ^ b.size.toNat

/-- An ascending burst of whole words that crosses no boundary of 4 KB. -/
structure Regular (b : AxiBurst) : Prop where
  burst : b.burst = 1
  size : b.size = 6
  aligned : b.addr.toNat % 64 = 0
  fits : b.addr.toNat % 4096 + b.bytes ≤ 4096

/-- The bursts have no byte in common. -/
def Apart (b b' : AxiBurst) : Prop :=
  b.addr.toNat + b.bytes ≤ b'.addr.toNat ∨ b'.addr.toNat + b'.bytes ≤ b.addr.toNat

end AxiBurst

/-- A memory, with what a burst does to it or reads of it. -/
structure DdrPort (M : Type) where
  write : M → StructDdrAw → List StructDdrW → M
  read : M → StructDdrAr → List StructDdrR

/-- What an AXI memory keeps. -/
structure DdrPort.Lawful {M : Type} (p : DdrPort M) : Prop where
  length_read : ∀ m ar, (p.read m ar).length = ar.arlen.toNat + 1
  read_write : ∀ m aw ws ar, aw.shape.Regular → ar.shape = aw.shape →
    ws.length = aw.awlen.toNat + 1 → (∀ w ∈ ws, w.wstrb = BitVec.allOnes 64) →
    (p.read (p.write m aw ws) ar).map (·.rdata) = ws.map (·.wdata)
  read_write_of_apart : ∀ m aw ws ar, aw.shape.Regular → ar.shape.Regular →
    ws.length = aw.awlen.toNat + 1 → aw.shape.Apart ar.shape →
    p.read (p.write m aw ws) ar = p.read m ar

section ByteMemory

variable {m : ℕ → BitVec 8} {aw : StructDdrAw} {ar : StructDdrAr} {ws : List StructDdrW}

end ByteMemory

/-! ## The stages -/

/-- `max_gblock_num_per_node`. -/
def maxGblockNumPerNode : ℕ := 5000000

/-- `tmp_aw` of `ddrInstHLS_aw_w`. -/
def ddrAwOf (i : BlockIndex) : StructDdrAw where
  awaddr := ddrAddr i
  awburst := 1
  awcache := 0
  awid := 1
  awlen := 1
  awlock := 0
  awprot := 0
  awqos := 0
  awsize := 6

/-- `tmp_ar` of `ddrInstHLS_ar`. -/
def ddrArOf (i : BlockIndex) : StructDdrAr where
  araddr := ddrAddr i
  arburst := 1
  arcache := 0
  arid := 1
  arlen := 1
  arlock := 0
  arprot := 0
  arqos := 0
  arsize := 6

/-- The last of the entries that is for a block. -/
def lastEntry (es : List StructDirDataE) (i : BlockIndex) : Option StructDirDataE :=
  es.reverse.find? (·.dirGblockIndex = i)

/-- The three stages with their streams, and the memory.  `inFlight` are the words that memory has
read and that have not arrived. -/
structure DdrStages (M : Type) where
  /-- `dir_data_f_DC_t_DI_in`. -/
  dirDataIn : List StructDirDataE
  regEndFlagW : Bool
  regDirDataW : StructDirDataE
  ddrAw : List StructDdrAw
  ddrW : List StructDdrW
  mem : M
  /-- `dir_cmd_f_DC_t_DI_in`. -/
  dirCmd : List BlockIndex
  ddrAr : List StructDdrAr
  inFlight : List StructDdrR
  ddrR : List StructDdrR
  regEndFlagR : Bool
  regDirDataR : StructDirDataE
  /-- `dir_data_f_DI_t_DC_out`. -/
  dirDataOut : List StructDirDataE
  writing : List StructDirDataE
  written : List StructDirDataE
  commands : List BlockIndex
  asked : List BlockIndex
  answers : List (BlockIndex × Option StructDirDataE)

namespace DdrStages

variable {M : Type}

/-- A tick of `ddrInstHLS_aw_w`; `tmp` is the local word before it is written. -/
def ddrInstAwW (s : DdrStages M) (tmp : StructDdrW) : DdrStages M :=
  if s.regEndFlagW then
    match s.dirDataIn with
    | e :: es => { s with
        dirDataIn := es
        ddrAw := s.ddrAw ++ [ddrAwOf e.dirGblockIndex]
        ddrW := s.ddrW ++ [dirDataEToDdrWPart1 e tmp]
        regDirDataW := e
        regEndFlagW := false
        writing := s.writing ++ [e] }
    | [] => s
  else { s with
    ddrW := s.ddrW ++ [dirDataEToDdrWPart2 s.regDirDataW tmp]
    regEndFlagW := true }

/-- A tick of `ddrInstHLS_ar`. -/
def ddrInstAr (s : DdrStages M) : DdrStages M :=
  match s.dirCmd with
  | i :: is => { s with
      dirCmd := is
      ddrAr := s.ddrAr ++ [ddrArOf i]
      asked := s.asked ++ [i] }
  | [] => s

/-- A tick of `ddrInstHLS_r`.  The second word goes into a copy of the register. -/
def ddrInstR (s : DdrStages M) : DdrStages M :=
  match s.ddrR with
  | r :: rs =>
      if s.regEndFlagR then
        { s with
          ddrR := rs
          regDirDataR := ddrRToDirDataEPart1 r s.regDirDataR
          regEndFlagR := false }
      else
        { s with
          ddrR := rs
          dirDataOut := s.dirDataOut ++ [ddrRToDirDataEPart2 r s.regDirDataR]
          regEndFlagR := true }
  | [] => s

/-- Memory carries out the oldest write, when its words are there. -/
def write (p : DdrPort M) (s : DdrStages M) : DdrStages M :=
  match s.ddrAw with
  | a :: as =>
      if a.awlen.toNat + 1 ≤ s.ddrW.length then
        { s with
          ddrAw := as
          ddrW := s.ddrW.drop (a.awlen.toNat + 1)
          mem := p.write s.mem a (s.ddrW.take (a.awlen.toNat + 1))
          writing := s.writing.drop 1
          written := s.written ++ s.writing.take 1 }
      else s
  | [] => s

/-- Memory carries out the oldest read. -/
def read (p : DdrPort M) (s : DdrStages M) : DdrStages M :=
  match s.ddrAr with
  | a :: as => { s with
      ddrAr := as
      inFlight := s.inFlight ++ p.read s.mem a
      asked := s.asked.drop 1
      answers := s.answers ++ (s.asked.take 1).map fun i => (i, lastEntry s.written i) }
  | [] => s

/-- A word that was read arrives. -/
def arrive (s : DdrStages M) : DdrStages M :=
  match s.inFlight with
  | r :: rs => { s with inFlight := rs, ddrR := s.ddrR ++ [r] }
  | [] => s

/-- A tick of a stage, a step of the memory, or what the directory sends. -/
inductive Action
  | entry (e : StructDirDataE)
  | cmd (i : BlockIndex)
  | awW (tmp : StructDdrW)
  | ar
  | r
  | write
  | read
  | arrive

/-- The directory names blocks of its node. -/
def step (p : DdrPort M) (a : Action) (s : DdrStages M) : Option (DdrStages M) :=
  match a with
  | .entry e => if e.dirGblockIndex.toNat < maxGblockNumPerNode then
      some { s with dirDataIn := s.dirDataIn ++ [e] } else none
  | .cmd i => if i.toNat < maxGblockNumPerNode then
      some { s with dirCmd := s.dirCmd ++ [i], commands := s.commands ++ [i] } else none
  | .awW tmp => some (s.ddrInstAwW tmp)
  | .ar => some s.ddrInstAr
  | .r => some s.ddrInstR
  | .write => some (s.write p)
  | .read => some (s.read p)
  | .arrive => some s.arrive

/-- After a reset; what the memory holds is not known. -/
structure Init (s : DdrStages M) : Prop where
  dirDataIn : s.dirDataIn = []
  regEndFlagW : s.regEndFlagW = true
  ddrAw : s.ddrAw = []
  ddrW : s.ddrW = []
  dirCmd : s.dirCmd = []
  ddrAr : s.ddrAr = []
  inFlight : s.inFlight = []
  ddrR : s.ddrR = []
  regEndFlagR : s.regEndFlagR = true
  dirDataOut : s.dirDataOut = []
  writing : s.writing = []
  written : s.written = []
  commands : s.commands = []
  asked : s.asked = []
  answers : s.answers = []

/-- The stages on a memory. -/
def system (p : DdrPort M) : TransitionSystem (DdrStages M) Action where
  init := Init
  step := step p

end DdrStages

/-! ## The bursts of the stages -/

section Bursts

variable {i j : BlockIndex}

theorem ddrAddr_toNat (h : i.toNat < maxGblockNumPerNode) : (ddrAddr i).toNat = i.toNat * 128 := by
  have hstep : (128 : BitVec 34).toNat = 128 := rfl
  unfold maxGblockNumPerNode at h
  rw [ddrAddr, BitVec.toNat_mul, BitVec.toNat_setWidth, hstep]
  omega

theorem ddrArOf_shape : (ddrArOf i).shape = (ddrAwOf i).shape := rfl

theorem ddrAwOf_bytes : (ddrAwOf i).shape.bytes = 128 := by
  show ((1 : BitVec 8).toNat + 1) * 2 ^ (6 : BitVec 3).toNat = 128
  decide

theorem ddrAwOf_regular (h : i.toNat < maxGblockNumPerNode) : (ddrAwOf i).shape.Regular where
  burst := rfl
  size := rfl
  aligned := by
    show (ddrAddr i).toNat % 64 = 0
    rw [ddrAddr_toNat h]
    omega
  fits := by
    rw [ddrAwOf_bytes]
    show (ddrAddr i).toNat % 4096 + 128 ≤ 4096
    rw [ddrAddr_toNat h]
    omega

/-- The entries of two blocks lie apart. -/
theorem ddrAwOf_apart (hi : i.toNat < maxGblockNumPerNode) (hj : j.toNat < maxGblockNumPerNode)
    (hne : i ≠ j) : (ddrAwOf i).shape.Apart (ddrAwOf j).shape := by
  have hnat : i.toNat ≠ j.toNat := fun h => hne (BitVec.eq_of_toNat_eq h)
  rw [AxiBurst.Apart, ddrAwOf_bytes, ddrAwOf_bytes]
  show (ddrAddr i).toNat + 128 ≤ (ddrAddr j).toNat ∨ (ddrAddr j).toNat + 128 ≤ (ddrAddr i).toNat
  rw [ddrAddr_toNat hi, ddrAddr_toNat hj]
  omega

end Bursts

/-! ## Words and the entries that they are of -/

/-- The words of entries, in their order. -/
inductive Words : List StructDirDataE → List StructDdrW → Prop
  | nil : Words [] []
  | cons {es : List StructDirDataE} {ws : List StructDdrW} (e : StructDirDataE)
      (tmp tmp' : StructDdrW) (h : Words es ws) :
      Words (e :: es) (dirDataEToDdrWPart1 e tmp :: dirDataEToDdrWPart2 e tmp' :: ws)

/-- Two words that were read are those of an entry, when there is one. -/
def WordsOf (x : Option StructDirDataE) (d d' : BitVec 512) : Prop :=
  ∀ e ∈ x, ∃ tmp tmp', d = (dirDataEToDdrWPart1 e tmp).wdata ∧ d' = (dirDataEToDdrWPart2 e tmp').wdata

/-- Words that answer reads, in their order. -/
inductive Replies : List (BlockIndex × Option StructDirDataE) → List StructDdrR → Prop
  | nil : Replies [] []
  | cons {as : List (BlockIndex × Option StructDirDataE)} {rs : List StructDdrR}
      (a : BlockIndex × Option StructDirDataE) {r r' : StructDdrR}
      (hr : WordsOf a.2 r.rdata r'.rdata) (h : Replies as rs) : Replies (a :: as) (r :: r' :: rs)

/-- Words on their way to memory: the last of the entries, which `reg` then is, may have only one of
its two. -/
def Sent : Bool → StructDirDataE → List StructDirDataE → List StructDdrW → Prop
  | true, _, es, ws => Words es ws
  | false, reg, es, ws => ∃ es' ws' tmp, es = es' ++ [reg] ∧
      ws = ws' ++ [dirDataEToDdrWPart1 reg tmp] ∧ Words es' ws'

/-- Words on their way back: for the first of the answers, `reg` may have the first of its two. -/
def Received : Bool → StructDirDataE → List (BlockIndex × Option StructDirDataE) →
    List StructDdrR → Prop
  | true, _, as, rs => Replies as rs
  | false, reg, as, rs => ∃ a as' r r' rs' d, as = a :: as' ∧ rs = r' :: rs' ∧
      reg = ddrRToDirDataEPart1 r d ∧ WordsOf a.2 r.rdata r'.rdata ∧ Replies as' rs'

theorem Words.snoc {es : List StructDirDataE} {ws : List StructDdrW} (h : Words es ws)
    (e : StructDirDataE) (tmp tmp' : StructDdrW) :
    Words (es ++ [e]) (ws ++ [dirDataEToDdrWPart1 e tmp, dirDataEToDdrWPart2 e tmp']) := by
  induction h with
  | nil => exact .cons e tmp tmp' .nil
  | cons e' t t' _ ih => exact .cons e' t t' ih

theorem Replies.snoc {as : List (BlockIndex × Option StructDirDataE)} {rs : List StructDdrR}
    (h : Replies as rs) (a : BlockIndex × Option StructDirDataE) {r r' : StructDdrR}
    (hr : WordsOf a.2 r.rdata r'.rdata) : Replies (as ++ [a]) (rs ++ [r, r']) := by
  induction h with
  | nil => exact .cons a hr .nil
  | cons b hb _ ih => exact .cons b hb ih

/-- The words of the oldest entry, once both are on their way. -/
theorem Sent.oldest {flag : Bool} {reg e : StructDirDataE} {es : List StructDirDataE}
    {ws : List StructDdrW} (h : Sent flag reg (e :: es) ws) (hlen : 2 ≤ ws.length) :
    ∃ tmp tmp' ws', ws = dirDataEToDdrWPart1 e tmp :: dirDataEToDdrWPart2 e tmp' :: ws' ∧
      Sent flag reg es ws' := by
  cases flag with
  | true =>
    cases h with
    | cons _ tmp tmp' hwords => exact ⟨tmp, tmp', _, rfl, hwords⟩
  | false =>
    obtain ⟨es', ws', tmp, hes, rfl, hwords⟩ := h
    cases hwords with
    | nil => exact absurd hlen (Nat.not_succ_le_self 1)
    | cons e' t t' hwords =>
      obtain ⟨rfl, rfl⟩ := List.cons.inj hes
      exact ⟨t, t', _, rfl, _, _, tmp, rfl, rfl, hwords⟩

/-- The words for one more answer. -/
theorem Received.snoc {flag : Bool} {reg : StructDirDataE}
    {as : List (BlockIndex × Option StructDirDataE)} {rs : List StructDdrR}
    (h : Received flag reg as rs) (a : BlockIndex × Option StructDirDataE) {r r' : StructDdrR}
    (hr : WordsOf a.2 r.rdata r'.rdata) : Received flag reg (as ++ [a]) (rs ++ [r, r']) := by
  cases flag with
  | true => exact Replies.snoc h a hr
  | false =>
    obtain ⟨b, as', t, t', rs', d, rfl, rfl, hreg, hb, hrs⟩ := h
    exact ⟨b, _, t, t', _, d, rfl, rfl, hreg, hb, hrs.snoc a hr⟩

/-- The two words of an entry, put together. -/
theorem WordsOf.read {x : Option StructDirDataE} {r r' : StructDdrR}
    (h : WordsOf x r.rdata r'.rdata) (d : StructDirDataE) :
    ∀ e ∈ x, ddrRToDirDataEPart2 r' (ddrRToDirDataEPart1 r d) = e := by
  intro e he
  obtain ⟨tmp, tmp', hr, hr'⟩ := h e he
  rw [ddrRToDirDataEPart1_part1 e d tmp hr, ddrRToDirDataEPart2_part2 e _ tmp' hr']
  rfl

theorem lastEntry_append (es : List StructDirDataE) (e : StructDirDataE) (i : BlockIndex) :
    lastEntry (es ++ [e]) i = if e.dirGblockIndex = i then some e else lastEntry es i := by
  rw [lastEntry, List.reverse_append, List.reverse_singleton, List.singleton_append,
    List.find?_cons]
  by_cases h : e.dirGblockIndex = i
  · simp only [h, decide_true, if_true]
  · simp only [h, decide_false, if_false, lastEntry]

/-! ## Every run -/

namespace DdrStages

variable {M : Type} {p : DdrPort M} {s s' : DdrStages M} {a : Action}

/-- The index of a block of the node. -/
def Named (i : BlockIndex) : Prop := i.toNat < maxGblockNumPerNode

/-- The way to memory: what is on it are the words of the entries in `writing`. -/
structure Sending (s : DdrStages M) : Prop where
  named : ∀ e ∈ s.dirDataIn ++ s.writing, Named e.dirGblockIndex
  ddrAw : s.ddrAw = s.writing.map fun e => ddrAwOf e.dirGblockIndex
  ddrW : Sent s.regEndFlagW s.regDirDataW s.writing s.ddrW

/-- What memory has for a block, when something was written. -/
def Stores (p : DdrPort M) (m : M) (i : BlockIndex) (x : Option StructDirDataE) : Prop :=
  ∃ r r', p.read m (ddrArOf i) = [r, r'] ∧ WordsOf x r.rdata r'.rdata

/-- The way back: what is on it are the words for those answers that have not come out. -/
structure Receiving (s : DdrStages M) : Prop where
  named : ∀ i ∈ s.dirCmd ++ s.asked, Named i
  ddrAr : s.ddrAr = s.asked.map ddrArOf
  commands : s.commands = s.answers.map Prod.fst ++ s.asked ++ s.dirCmd
  ddrR : ∃ done rest, s.answers = done ++ rest ∧
    List.Forall₂ (fun a e => ∀ e' ∈ a.2, e = e') done s.dirDataOut ∧
    Received s.regEndFlagR s.regDirDataR rest (s.ddrR ++ s.inFlight)

/-- Both ways, and what lies in between. -/
structure Inv (p : DdrPort M) (s : DdrStages M) : Prop where
  sending : s.Sending
  stores : ∀ i, Named i → Stores p s.mem i (lastEntry s.written i)
  receiving : s.Receiving

theorem Stores.of_none (hp : p.Lawful) (m : M) (i : BlockIndex) : Stores p m i none := by
  have hlen := hp.length_read m (ddrArOf i)
  obtain ⟨r, r', heq⟩ := List.length_eq_two.mp hlen
  exact ⟨r, r', heq, fun e he => nomatch he⟩

theorem inv_init (hp : p.Lawful) (h : Init s) : Inv p s where
  sending := {
    named := by
      rw [h.dirDataIn, h.writing]
      exact fun e he => nomatch he
    ddrAw := by rw [h.ddrAw, h.writing, List.map_nil]
    ddrW := by
      rw [h.regEndFlagW, h.writing, h.ddrW]
      exact .nil }
  stores i _ := by
    rw [h.written]
    exact .of_none hp s.mem i
  receiving := {
    named := by
      rw [h.dirCmd, h.asked]
      exact fun i hi => nomatch hi
    ddrAr := by rw [h.ddrAr, h.asked, List.map_nil]
    commands := by rw [h.commands, h.answers, h.asked, h.dirCmd, List.map_nil, List.append_nil,
      List.append_nil]
    ddrR := by
      refine ⟨[], [], ?_, ?_, ?_⟩
      · rw [h.answers, List.append_nil]
      · rw [h.dirDataOut]
        exact .nil
      · rw [h.regEndFlagR, h.ddrR, h.inFlight]
        exact .nil }

/-! ### The way to memory -/

theorem Inv.entry (h : Inv p s) {e : StructDirDataE} (he : Named e.dirGblockIndex) :
    Inv p { s with dirDataIn := s.dirDataIn ++ [e] } := by
  refine ⟨⟨fun e' he' => ?_, h.sending.ddrAw, h.sending.ddrW⟩, h.stores, h.receiving.named,
    h.receiving.ddrAr, h.receiving.commands, h.receiving.ddrR⟩
  simp only [List.mem_append, List.mem_singleton] at he'
  rcases he' with (hin | rfl) | hin
  · exact h.sending.named e' (List.mem_append_left _ hin)
  · exact he
  · exact h.sending.named e' (List.mem_append_right _ hin)

theorem Inv.awW (h : Inv p s) (tmp : StructDdrW) : Inv p (s.ddrInstAwW tmp) := by
  have hreceiving := h.receiving
  have hddrW := h.sending.ddrW
  unfold ddrInstAwW
  split
  next hflag =>
    rw [hflag] at hddrW
    split
    next e es hin =>
      refine ⟨⟨fun e' he' => h.sending.named e' ?_, ?_, ?_⟩, h.stores, hreceiving.named,
        hreceiving.ddrAr, hreceiving.commands, hreceiving.ddrR⟩
      · simp only [hin, List.mem_append, List.mem_cons, List.not_mem_nil, or_false] at he' ⊢
        tauto
      · rw [h.sending.ddrAw, List.map_append]
        rfl
      · exact ⟨s.writing, s.ddrW, tmp, rfl, rfl, hddrW⟩
    next => exact h
  next hflag =>
    rw [Bool.not_eq_true] at hflag
    rw [hflag] at hddrW
    obtain ⟨es, ws, tmp', hwriting, hw, hwords⟩ := hddrW
    refine ⟨⟨h.sending.named, h.sending.ddrAw, ?_⟩, h.stores, hreceiving.named, hreceiving.ddrAr,
      hreceiving.commands, hreceiving.ddrR⟩
    show Words s.writing (s.ddrW ++ _)
    rw [hwriting, hw, List.append_assoc]
    exact hwords.snoc _ tmp' tmp

/-- What a write to memory changes. -/
theorem write_cases (h : s.Sending) :
    s.write p = s ∨ ∃ e es tmp tmp' ws, s.writing = e :: es ∧
      (s.write p = { s with
        ddrAw := es.map fun e => ddrAwOf e.dirGblockIndex
        ddrW := ws
        mem := p.write s.mem (ddrAwOf e.dirGblockIndex)
          [dirDataEToDdrWPart1 e tmp, dirDataEToDdrWPart2 e tmp']
        writing := es
        written := s.written ++ [e] }) ∧ Sent s.regEndFlagW s.regDirDataW es ws := by
  have haw := h.ddrAw
  have hddrW := h.ddrW
  unfold write
  split
  next a as hcons =>
    split
    next hlen =>
      rw [hcons] at haw
      cases hwriting : s.writing with
      | nil =>
        rw [hwriting] at haw
        cases haw
      | cons e es =>
        rw [hwriting, List.map_cons] at haw
        rw [hwriting] at hddrW
        obtain ⟨rfl, rfl⟩ := List.cons.inj haw
        obtain ⟨tmp, tmp', ws, hw, hwords⟩ := hddrW.oldest hlen
        refine .inr ⟨e, es, tmp, tmp', ws, rfl, ?_, hwords⟩
        rw [hw]
        rfl
    next => exact .inl rfl
  next => exact .inl rfl

/-- A burst of the words of an entry changes what is read of its block, and of no other. -/
theorem Stores.write (hp : p.Lawful) {m : M} {i : BlockIndex} {x : Option StructDirDataE}
    {e : StructDirDataE} (h : Stores p m i x) (hi : Named i) (he : Named e.dirGblockIndex)
    (tmp tmp' : StructDdrW) :
    Stores p (p.write m (ddrAwOf e.dirGblockIndex)
      [dirDataEToDdrWPart1 e tmp, dirDataEToDdrWPart2 e tmp']) i
      (if e.dirGblockIndex = i then some e else x) := by
  split
  next hidx =>
    subst hidx
    obtain ⟨r, r', heq⟩ := List.length_eq_two.mp (hp.length_read (p.write m
      (ddrAwOf e.dirGblockIndex) [dirDataEToDdrWPart1 e tmp, dirDataEToDdrWPart2 e tmp'])
      (ddrArOf e.dirGblockIndex))
    have hdata := hp.read_write m (ddrAwOf e.dirGblockIndex)
      [dirDataEToDdrWPart1 e tmp, dirDataEToDdrWPart2 e tmp'] (ddrArOf e.dirGblockIndex)
      (ddrAwOf_regular he) rfl rfl (fun w hw => ?_)
    · rw [heq] at hdata
      obtain ⟨hr, htail⟩ := List.cons.inj hdata
      obtain ⟨hr', -⟩ := List.cons.inj htail
      refine ⟨r, r', heq, fun e' he' => ?_⟩
      obtain rfl := Option.some.inj he'
      exact ⟨tmp, tmp', hr, hr'⟩
    · simp only [List.mem_cons, List.not_mem_nil, or_false] at hw
      rcases hw with rfl | rfl
      · rfl
      · rfl
  next hidx =>
    obtain ⟨r, r', hread, hx⟩ := h
    refine ⟨r, r', ?_, hx⟩
    rw [hp.read_write_of_apart m (ddrAwOf e.dirGblockIndex) _ (ddrArOf i) (ddrAwOf_regular he)
      (ddrAwOf_regular hi) rfl (ddrAwOf_apart he hi hidx)]
    exact hread

theorem Inv.write (hp : p.Lawful) (h : Inv p s) : Inv p (s.write p) := by
  rcases write_cases (p := p) h.sending with heq | ⟨e, es, tmp, tmp', ws, hwriting, heq, hwords⟩
  · rw [heq]
    exact h
  · rw [heq]
    have hnamed : Named e.dirGblockIndex := h.sending.named e (by
      rw [hwriting]
      exact List.mem_append_right _ List.mem_cons_self)
    refine ⟨⟨fun e' he' => h.sending.named e' ?_, rfl, hwords⟩, fun i hi => ?_, h.receiving.named,
      h.receiving.ddrAr, h.receiving.commands, h.receiving.ddrR⟩
    · rw [hwriting]
      simp only [List.mem_append, List.mem_cons] at he' ⊢
      tauto
    · show Stores p (p.write _ _ _) i (lastEntry (s.written ++ [e]) i)
      rw [lastEntry_append]
      exact (h.stores i hi).write hp hi hnamed tmp tmp'

/-! ### The way back -/

theorem Inv.cmd (h : Inv p s) {i : BlockIndex} (hi : Named i) :
    Inv p { s with dirCmd := s.dirCmd ++ [i], commands := s.commands ++ [i] } := by
  refine ⟨⟨h.sending.named, h.sending.ddrAw, h.sending.ddrW⟩, h.stores, fun j hj => ?_,
    h.receiving.ddrAr, ?_, h.receiving.ddrR⟩
  · simp only [List.mem_append, List.mem_singleton] at hj
    rcases hj with (hin | rfl) | hin
    · exact h.receiving.named j (List.mem_append_left _ hin)
    · exact hi
    · exact h.receiving.named j (List.mem_append_right _ hin)
  · simp only [h.receiving.commands, List.append_assoc]

theorem Inv.ar (h : Inv p s) : Inv p s.ddrInstAr := by
  unfold ddrInstAr
  split
  next i is hcmd =>
    refine ⟨⟨h.sending.named, h.sending.ddrAw, h.sending.ddrW⟩, h.stores,
      fun j hj => h.receiving.named j ?_, ?_, ?_, h.receiving.ddrR⟩
    · simp only [hcmd, List.mem_append, List.mem_cons, List.not_mem_nil, or_false] at hj ⊢
      tauto
    · rw [h.receiving.ddrAr, List.map_append]
      rfl
    · simp only [h.receiving.commands, hcmd, List.append_assoc, List.singleton_append]
  next => exact h

/-- Memory answers with what it has. -/
theorem Inv.read (h : Inv p s) : Inv p (s.read p) := by
  have har := h.receiving.ddrAr
  unfold DdrStages.read
  split
  next a as hcons =>
    rw [hcons] at har
    cases hasked : s.asked with
    | nil =>
      rw [hasked] at har
      cases har
    | cons i is =>
      rw [hasked, List.map_cons] at har
      obtain ⟨rfl, rfl⟩ := List.cons.inj har
      have hnamed : Named i := h.receiving.named i (by
        rw [hasked]
        exact List.mem_append_right _ List.mem_cons_self)
      obtain ⟨r, r', hread, hx⟩ := h.stores i hnamed
      obtain ⟨done, rest, hanswers, hdone, hrest⟩ := h.receiving.ddrR
      refine ⟨⟨h.sending.named, h.sending.ddrAw, h.sending.ddrW⟩, h.stores,
        fun j hj => h.receiving.named j ?_, rfl, ?_, done, rest ++ [(i, lastEntry s.written i)], ?_,
        hdone, ?_⟩
      · rw [hasked]
        simp only [List.mem_append, List.mem_cons, List.drop_succ_cons, List.drop_zero] at hj ⊢
        tauto
      · simp only [h.receiving.commands, hasked, List.take_succ_cons, List.take_zero, List.map_append,
          List.map_cons, List.map_nil, List.drop_succ_cons, List.drop_zero, List.append_assoc,
          List.singleton_append]
      · rw [hanswers, List.append_assoc]
        rfl
      · show Received _ _ _ (s.ddrR ++ (s.inFlight ++ p.read s.mem (ddrArOf i)))
        rw [hread, ← List.append_assoc]
        exact hrest.snoc _ hx
  next => exact h

theorem Inv.arrive (h : Inv p s) : Inv p s.arrive := by
  obtain ⟨done, rest, hanswers, hdone, hrest⟩ := h.receiving.ddrR
  unfold DdrStages.arrive
  split
  next r rs hin =>
    refine ⟨⟨h.sending.named, h.sending.ddrAw, h.sending.ddrW⟩, h.stores, h.receiving.named,
      h.receiving.ddrAr, h.receiving.commands, done, rest, hanswers, hdone, ?_⟩
    rw [hin] at hrest
    show Received _ _ _ (s.ddrR ++ [r] ++ rs)
    rw [List.append_assoc]
    exact hrest
  next => exact h

/-- The first word goes into the register; the second one completes what is there. -/
theorem Inv.r (h : Inv p s) : Inv p s.ddrInstR := by
  obtain ⟨done, rest, hanswers, hdone, hrest⟩ := h.receiving.ddrR
  unfold ddrInstR
  split
  next r rs hin =>
    rw [hin, List.cons_append] at hrest
    split
    next hflag =>
      rw [hflag] at hrest
      generalize hrs : rs ++ s.inFlight = rs' at hrest
      cases hrest with
      | cons a hr hrest =>
        exact ⟨⟨h.sending.named, h.sending.ddrAw, h.sending.ddrW⟩, h.stores, h.receiving.named,
          h.receiving.ddrAr, h.receiving.commands, done, _, hanswers, hdone,
          a, _, r, _, _, s.regDirDataR, rfl, hrs, rfl, hr, hrest⟩
    next hflag =>
      rw [Bool.not_eq_true] at hflag
      rw [hflag] at hrest
      obtain ⟨a, rest', t, t', rs', d, rfl, hrs, hreg, ha, hreplies⟩ := hrest
      obtain ⟨rfl, rfl⟩ := List.cons.inj hrs
      refine ⟨⟨h.sending.named, h.sending.ddrAw, h.sending.ddrW⟩, h.stores, h.receiving.named,
        h.receiving.ddrAr, h.receiving.commands, done ++ [a], rest', ?_, ?_, hreplies⟩
      · rw [hanswers, List.append_assoc]
        rfl
      · refine List.rel_append hdone (.cons (fun e he => ?_) .nil)
        rw [hreg]
        exact ha.read d e he
  next => exact h

/-! ### Both ways -/

theorem Inv.step (hp : p.Lawful) (h : Inv p s) (hs : DdrStages.step p a s = some s') : Inv p s' := by
  cases a with
  | entry e =>
    obtain ⟨he, hs⟩ := Option.ite_none_right_eq_some.mp hs
    obtain rfl := Option.some.inj hs
    exact h.entry he
  | cmd i =>
    obtain ⟨hi, hs⟩ := Option.ite_none_right_eq_some.mp hs
    obtain rfl := Option.some.inj hs
    exact h.cmd hi
  | awW tmp => exact Option.some.inj hs ▸ h.awW tmp
  | ar => exact Option.some.inj hs ▸ h.ar
  | r => exact Option.some.inj hs ▸ h.r
  | write => exact Option.some.inj hs ▸ h.write hp
  | read => exact Option.some.inj hs ▸ h.read
  | arrive => exact Option.some.inj hs ▸ h.arrive

theorem inv (hp : p.Lawful) (hr : (system p).Reachable s) : Inv p s :=
  TransitionSystem.Reachable.invariant (P := Inv p) (fun _ h0 => inv_init hp h0)
    (fun _ _ _ _ hi hs => hi.step hp hs) hr

end DdrStages

end Ting
