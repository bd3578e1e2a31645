/-
# `Ting.Soft.FlatMemory` — an access of any length, line by line

An application reads and writes global memory at any address and of any length.  `DSM::read` and
`DSM::write` cut the access at the boundaries of the lines: a first piece up to the end of the line
it begins in, whole lines, and the rest.  Both go through their buffer and through memory with
variables of their own.

Here `readLine` and `writeLine` are what the caches make of them together: a copy from or to one
line, in one step.  The count of accesses that both keep is left out.
-/
import Ting.Soft.Allocators

namespace Ting

/-- Bytes in memory, from a pointer on. -/
abbrev Buffer := ℕ → BitVec 8

/-- `memcpy` of `n` bytes at `s` of the source to `d` of the destination. -/
def memcpy (dst : Buffer) (d : ℕ) (src : Buffer) (s n : ℕ) : Buffer := fun i =>
  if d ≤ i ∧ i < d + n then src (s + (i - d)) else dst i

/-! ## One line -/

/-- `GlobalAddress::getTag`. -/
def GlobalAddress.getTag (a : GlobalAddress) : BitVec 64 :=
  (BitVec.ofNat 64 a.addr >>> 12 <<< 8) + BitVec.ofNat 64 a.nodeID

/-- `addr += n`. -/
def GlobalAddress.add (a : GlobalAddress) (n : ℕ) : GlobalAddress :=
  { a with addr := (a.addr + n) % 2 ^ 64 }

/-- The `data` of every line, by its tag. -/
abbrev Lines := BitVec 64 → Buffer

/-- `readLine`, into the buffer at `pos`. -/
def Lines.readLine (m : Lines) (addr : GlobalAddress) (start size : BitVec 16) (to' : Buffer)
    (pos : ℕ) : Buffer :=
  memcpy to' pos (m addr.getTag) start.toNat size.toNat

/-- `writeLine`, out of the buffer at `pos`. -/
def Lines.writeLine (m : Lines) (addr : GlobalAddress) (start size : BitVec 16) (src : Buffer)
    (pos : ℕ) : Lines :=
  Function.update m addr.getTag (memcpy (m addr.getTag) start.toNat src pos size.toNat)

theorem GlobalAddress.getTag_toNat {a : GlobalAddress} (h : a.addr < 2 ^ 64) :
    a.getTag.toNat = a.addr / lineSize * 256 + a.nodeID := by
  have hn := a.nodeID.isLt
  simp only [getTag, lineSize, BitVec.toNat_add, BitVec.toNat_shiftLeft, BitVec.toNat_ushiftRight,
    BitVec.toNat_ofNat, Nat.shiftLeft_eq, Nat.shiftRight_eq_div_pow]
  omega

/-- Two addresses have one tag when they lie in one line of one node. -/
theorem GlobalAddress.getTag_eq {a b : ℕ} {n n' : NodeId} (ha : a < 2 ^ 64) (hb : b < 2 ^ 64) :
    getTag ⟨a, n⟩ = getTag ⟨b, n'⟩ ↔ n = n' ∧ a / lineSize = b / lineSize := by
  rw [← BitVec.toNat_inj, getTag_toNat ha, getTag_toNat hb, Fin.ext_iff]
  have hn := n.isLt
  have hn' := n'.isLt
  simp only
  omega

/-! ## The pieces of an access -/

/-- A call of `readLine` or `writeLine`: its address, the `start` and the length that it is given,
before they become 16 bits wide, and how far into the buffer it begins. -/
structure LineCall where
  addr : GlobalAddress
  start : ℕ
  len : ℕ
  pos : ℕ

/-- The loop over whole lines, and what remains after it. -/
def wholeLines (iter : GlobalAddress) (pos stop : ℕ) : List LineCall :=
  if lineSize ≤ stop - pos then
    ⟨iter, 0, lineSize, pos⟩ :: wholeLines (iter.add lineSize) (pos + lineSize) stop
  else if stop ≠ pos then [⟨iter, 0, stop - pos, pos⟩]
  else []
termination_by stop - pos
decreasing_by simp only [lineSize] at *; omega

/-- The calls that `DSM::read` and `DSM::write` make, in their order. -/
def lineCalls (addr : GlobalAddress) (size : BitVec 32) : List LineCall :=
  let start := addr.addr % lineSize
  let len := min size.toNat (lineSize - start)
  ⟨addr, start, len, 0⟩ ::
    if len = size.toNat then [] else wholeLines (addr.add len) len size.toNat

/-- `DSM::read`. -/
def DSM.read (m : Lines) (addr : GlobalAddress) (size : BitVec 32) (to' : Buffer) : Buffer :=
  (lineCalls addr size).foldl
    (fun t c => m.readLine c.addr (.ofNat 16 c.start) (.ofNat 16 c.len) t c.pos) to'

/-- `DSM::write`. -/
def DSM.write (m : Lines) (addr : GlobalAddress) (size : BitVec 32) (src : Buffer) : Lines :=
  (lineCalls addr size).foldl
    (fun m c => m.writeLine c.addr (.ofNat 16 c.start) (.ofNat 16 c.len) src c.pos) m

/-! ## Flat memory -/

/-- A byte for every address of every node. -/
abbrev FlatMemory := NodeId → ℕ → BitVec 8

namespace FlatMemory

/-- The first `size` bytes of the buffer, at the address and the ones behind it. -/
def store (f : FlatMemory) (addr : GlobalAddress) (size : ℕ) (src : Buffer) : FlatMemory :=
  fun n a => if n = addr.nodeID ∧ addr.addr ≤ a ∧ a < addr.addr + size then src (a - addr.addr)
    else f n a

/-- The buffer with its first `size` bytes from memory. -/
def load (f : FlatMemory) (addr : GlobalAddress) (size : ℕ) (to' : Buffer) : Buffer :=
  fun i => if i < size then f addr.nodeID (addr.addr + i) else to' i

/-- As `store`, of the bytes in `l` only. -/
def storeAt (f : FlatMemory) (addr : GlobalAddress) (l : List ℕ) (src : Buffer) : FlatMemory :=
  fun n a => if n = addr.nodeID ∧ addr.addr ≤ a ∧ a - addr.addr ∈ l then src (a - addr.addr)
    else f n a

/-- As `load`, of the bytes in `l` only. -/
def loadAt (f : FlatMemory) (addr : GlobalAddress) (l : List ℕ) (to' : Buffer) : Buffer :=
  fun i => if i ∈ l then f addr.nodeID (addr.addr + i) else to' i

section Parts

variable {f : FlatMemory} {addr : GlobalAddress} {l l' : List ℕ} {src to' : Buffer}

theorem storeAt_range (size : ℕ) :
    f.storeAt addr (List.range size) src = f.store addr size src := by
  funext n a
  refine if_congr (and_congr_right' (and_congr_right fun h => ?_)) rfl rfl
  rw [List.mem_range]
  omega

theorem storeAt_append :
    (f.storeAt addr l src).storeAt addr l' src = f.storeAt addr (l ++ l') src := by
  funext n a
  simp only [storeAt, List.mem_append]
  grind

theorem loadAt_range (size : ℕ) :
    f.loadAt addr (List.range size) to' = f.load addr size to' := by
  funext i
  exact if_congr List.mem_range rfl rfl

theorem loadAt_append :
    f.loadAt addr l' (f.loadAt addr l to') = f.loadAt addr (l ++ l') to' := by
  funext i
  simp only [loadAt, List.mem_append]
  grind

end Parts

end FlatMemory

/-- The lines hold the bytes of the flat memory, each where its address says. -/
def Lines.Refines (m : Lines) (f : FlatMemory) : Prop :=
  ∀ n, ∀ a < 2 ^ 64, m (GlobalAddress.getTag ⟨a, n⟩) (a % lineSize) = f n a

/-- What a program stores, in one call of `DSM::write`. -/
structure Stored where
  addr : GlobalAddress
  size : BitVec 32
  src : Buffer

/-- The call does not run past the end of the addresses. -/
def Stored.Fits (w : Stored) : Prop := w.addr.addr + w.size.toNat ≤ 2 ^ 64

instance (w : Stored) : Decidable w.Fits := inferInstanceAs (Decidable (_ ≤ _))

/-- What the call leaves at an address, if anything. -/
def Stored.byteAt (w : Stored) (n : NodeId) (a : ℕ) : Option (BitVec 8) :=
  if n = w.addr.nodeID ∧ w.addr.addr ≤ a ∧ a < w.addr.addr + w.size.toNat then
    some (w.src (a - w.addr.addr))
  else none

/-- What the last of the calls that reach an address leaves there. -/
def lastStored (ws : List Stored) (n : NodeId) (a : ℕ) : Option (BitVec 8) :=
  ws.reverse.findSome? (·.byteAt n a)

theorem foldl_store (ws : List Stored) (f : FlatMemory) (n : NodeId) (a : ℕ) :
    ws.foldl (fun f w => f.store w.addr w.size.toNat w.src) f n a =
      (lastStored ws n a).getD (f n a) := by
  induction ws generalizing f with
  | nil => rfl
  | cons w ws ih =>
    rw [List.foldl_cons, ih]
    simp only [lastStored, List.reverse_cons, List.findSome?_append, List.findSome?_cons,
      List.findSome?_nil]
    cases ws.reverse.findSome? (·.byteAt n a) with
    | some v => rfl
    | none =>
      simp only [Option.none_or, Option.getD_none, FlatMemory.store, Stored.byteAt]
      split <;> rfl

/-! ## What the pieces cover -/

/-- A piece of an access at `addr`: it lies in one line, and is where its part of the buffer
belongs. -/
structure LineCall.PieceOf (addr : GlobalAddress) (c : LineCall) : Prop where
  addr_eq : c.addr = ⟨addr.addr + c.pos, addr.nodeID⟩
  start_eq : c.addr.addr % lineSize = c.start
  fits : c.start + c.len ≤ lineSize

/-- The part of the buffer that a call copies. -/
def LineCall.bytes (c : LineCall) : List ℕ := List.range' c.pos c.len

section Pieces

variable {addr : GlobalAddress} {size : ℕ}

theorem GlobalAddress.add_of_lt {n : ℕ} (h : addr.addr + n < 2 ^ 64) :
    addr.add n = ⟨addr.addr + n, addr.nodeID⟩ := by
  rw [add, Nat.mod_eq_of_lt h]

/-- The loop begins at the start of a line and goes on line by line. -/
theorem wholeLines_pieceOf {iter : GlobalAddress} {pos stop : ℕ} (hpos : pos ≤ stop)
    (hiter : pos < stop → iter = ⟨addr.addr + pos, addr.nodeID⟩)
    (hline : (addr.addr + pos) % lineSize = 0) (hfit : addr.addr + stop ≤ 2 ^ 64) :
    ∀ c ∈ wholeLines iter pos stop, c.PieceOf addr := by
  fun_induction wholeLines iter pos stop with
  | case1 iter pos hle ih =>
    have hnext : pos + lineSize ≤ stop := by simp only [lineSize] at hle ⊢; omega
    obtain rfl := hiter (by simp only [lineSize] at hnext; omega)
    intro c hc
    cases hc with
    | head => exact ⟨rfl, hline, by simp only [Nat.zero_add, Nat.le_refl]⟩
    | tail _ hc =>
      refine ih hnext (fun h => ?_) ?_ c hc
      · rw [GlobalAddress.add_of_lt (by simp only; omega), Nat.add_assoc]
      · rw [← Nat.add_assoc, Nat.add_mod_right]
        exact hline
  | case2 iter pos hle hne =>
    obtain rfl := hiter (by omega)
    intro c hc
    obtain rfl := List.mem_singleton.mp hc
    exact ⟨rfl, hline, by simp only at *; omega⟩
  | case3 iter pos hle hne =>
    intro c hc
    cases hc

/-- Nothing is left out and nothing is copied twice. -/
theorem wholeLines_bytes {iter : GlobalAddress} {pos stop : ℕ} (hpos : pos ≤ stop) :
    (wholeLines iter pos stop).flatMap LineCall.bytes = List.range' pos (stop - pos) := by
  fun_induction wholeLines iter pos stop with
  | case1 iter pos hle ih =>
    have hnext : pos + lineSize ≤ stop := by simp only [lineSize] at hle ⊢; omega
    have hstop : stop - pos = lineSize + (stop - (pos + lineSize)) := by omega
    rw [List.flatMap_cons, ih hnext, LineCall.bytes, hstop, List.range'_append_1]
  | case2 iter pos hle hne => simp only [List.flatMap_singleton, LineCall.bytes]
  | case3 iter pos hle hne =>
    obtain rfl : stop = pos := not_not.mp hne
    rw [Nat.sub_self, List.flatMap_nil, List.range'_zero]

variable {size : BitVec 32}

theorem lineCalls_pieceOf (h : addr.addr + size.toNat ≤ 2 ^ 64) :
    ∀ c ∈ lineCalls addr size, c.PieceOf addr := by
  have hmod : addr.addr % lineSize < lineSize := Nat.mod_lt _ (by decide)
  intro c hc
  unfold lineCalls at hc
  cases hc with
  | head => exact ⟨rfl, rfl, by simp only; omega⟩
  | tail _ hc =>
    split at hc
    next => cases hc
    next hne =>
      have hlen : min size.toNat (lineSize - addr.addr % lineSize) =
          lineSize - addr.addr % lineSize := by omega
      rw [hlen] at hc hne
      refine wholeLines_pieceOf (by omega) (fun hlt => ?_) ?_ h c hc
      · exact GlobalAddress.add_of_lt (by omega)
      · simp only [lineSize] at hmod ⊢
        omega

theorem lineCalls_bytes (addr : GlobalAddress) (size : BitVec 32) :
    (lineCalls addr size).flatMap LineCall.bytes = List.range size.toNat := by
  have hle : min size.toNat (lineSize - addr.addr % lineSize) ≤ size.toNat := Nat.min_le_left _ _
  unfold lineCalls
  rw [List.flatMap_cons, List.range_eq_range']
  split
  next heq => simp only [LineCall.bytes, heq, List.flatMap_nil, List.append_nil]
  next hne =>
    generalize min size.toNat (lineSize - addr.addr % lineSize) = len at hne hle ⊢
    have hsize : List.range' 0 len ++ List.range' (0 + len) (size.toNat - len) =
        List.range' 0 size.toNat := by
      rw [List.range'_append_1, Nat.add_sub_cancel' hle]
    rw [wholeLines_bytes hle, LineCall.bytes, ← hsize, Nat.zero_add]

/-- The length and the start of a piece are not changed by becoming 16 bits wide. -/
theorem LineCall.PieceOf.toNat {c : LineCall} (hc : c.PieceOf addr) :
    (BitVec.ofNat 16 c.start).toNat = c.start ∧ (BitVec.ofNat 16 c.len).toNat = c.len := by
  have hfits := hc.fits
  simp only [lineSize] at hfits
  simp only [BitVec.toNat_ofNat]
  omega

end Pieces

/-! ## What the pieces do -/

section Run

variable {m : Lines} {f : FlatMemory} {addr : GlobalAddress} {c : LineCall}

/-- A piece covers the part of its line from `start` on. -/
theorem LineCall.PieceOf.mem_bytes (hc : c.PieceOf addr) {i : ℕ} (hi : i ∈ c.bytes) :
    (addr.addr + i) / lineSize = c.addr.addr / lineSize ∧
      (addr.addr + i) % lineSize = c.start + (i - c.pos) := by
  have hstart := hc.start_eq
  have hfits := hc.fits
  have haddr : c.addr.addr = addr.addr + c.pos := by rw [hc.addr_eq]
  rw [bytes, List.mem_range'_1] at hi
  simp only [lineSize] at *
  omega

/-- What a copy to the line changes, it changes at the addresses of the piece. -/
theorem LineCall.PieceOf.mem_of_tag (hc : c.PieceOf addr)
    (hfit : ∀ i ∈ c.bytes, addr.addr + i < 2 ^ 64) {n : NodeId} {a : ℕ} (ha : a < 2 ^ 64)
    (htag : GlobalAddress.getTag ⟨a, n⟩ = c.addr.getTag)
    (hin : c.start ≤ a % lineSize ∧ a % lineSize < c.start + c.len) :
    n = addr.nodeID ∧ addr.addr ≤ a ∧ a - addr.addr ∈ c.bytes := by
  have hfirst : addr.addr + c.pos < 2 ^ 64 :=
    hfit c.pos (List.mem_range'_1.mpr ⟨Nat.le_refl _, by omega⟩)
  have hstart := hc.start_eq
  rw [hc.addr_eq] at htag hstart
  obtain ⟨rfl, hline⟩ := (GlobalAddress.getTag_eq ha hfirst).mp htag
  refine ⟨rfl, ?_, List.mem_range'_1.mpr ?_⟩
  all_goals
    simp only [lineSize] at *
    omega

theorem Lines.Refines.writeLine (hm : m.Refines f) (hc : c.PieceOf addr)
    (hfit : ∀ i ∈ c.bytes, addr.addr + i < 2 ^ 64) (src : Buffer) :
    (m.writeLine c.addr (.ofNat 16 c.start) (.ofNat 16 c.len) src c.pos).Refines
      (f.storeAt addr c.bytes src) := by
  intro n a ha
  rw [Lines.writeLine, hc.toNat.1, hc.toNat.2, FlatMemory.storeAt, ← hm n a ha]
  split
  next hin =>
    obtain ⟨rfl, hle, hi⟩ := hin
    obtain ⟨hline, hoff⟩ := hc.mem_bytes hi
    have hpos := List.mem_range'_1.mp hi
    rw [Nat.add_sub_cancel' hle] at hline hoff
    have htag : GlobalAddress.getTag ⟨a, addr.nodeID⟩ = c.addr.getTag := by
      rw [hc.addr_eq] at hline ⊢
      exact (GlobalAddress.getTag_eq ha (by omega)).mpr ⟨rfl, hline⟩
    rw [htag, Function.update_self, memcpy, if_pos (by omega), hoff]
    congr 1
    omega
  next hout =>
    by_cases htag : GlobalAddress.getTag ⟨a, n⟩ = c.addr.getTag
    · rw [htag, Function.update_self, memcpy, if_neg]
      exact fun hin => hout (hc.mem_of_tag hfit ha htag hin)
    · rw [Function.update_of_ne htag]

theorem Lines.Refines.readLine (hm : m.Refines f) (hc : c.PieceOf addr)
    (hfit : ∀ i ∈ c.bytes, addr.addr + i < 2 ^ 64) (to' : Buffer) :
    m.readLine c.addr (.ofNat 16 c.start) (.ofNat 16 c.len) to' c.pos =
      f.loadAt addr c.bytes to' := by
  funext i
  rw [Lines.readLine, hc.toNat.1, hc.toNat.2, FlatMemory.loadAt, memcpy]
  refine if_ctx_congr List.mem_range'_1.symm (fun hi => ?_) (fun _ => rfl)
  obtain ⟨hline, hoff⟩ := hc.mem_bytes hi
  rw [← hm addr.nodeID _ (hfit i hi), hoff]
  have hpos := List.mem_range'_1.mp hi
  have hlt := hfit i hi
  have htag : GlobalAddress.getTag ⟨addr.addr + i, addr.nodeID⟩ = c.addr.getTag := by
    rw [hc.addr_eq] at hline ⊢
    exact (GlobalAddress.getTag_eq hlt (by omega)).mpr ⟨rfl, hline⟩
  rw [htag]

theorem Lines.Refines.foldl_writeLine {cs : List LineCall} (hm : m.Refines f)
    (hc : ∀ c ∈ cs, c.PieceOf addr)
    (hfit : ∀ i ∈ cs.flatMap LineCall.bytes, addr.addr + i < 2 ^ 64) (src : Buffer) :
    (cs.foldl (fun m c => m.writeLine c.addr (.ofNat 16 c.start) (.ofNat 16 c.len) src c.pos)
      m).Refines (f.storeAt addr (cs.flatMap LineCall.bytes) src) := by
  induction cs generalizing m f with
  | nil =>
    intro n a ha
    simp only [List.foldl_nil, List.flatMap_nil, FlatMemory.storeAt, List.not_mem_nil, and_false,
      if_false]
    exact hm n a ha
  | cons c cs ih =>
    rw [List.flatMap_cons] at hfit ⊢
    rw [← FlatMemory.storeAt_append]
    have hstep := hm.writeLine (hc c List.mem_cons_self)
      (fun i hi => hfit i (List.mem_append_left _ hi)) src
    exact ih hstep (fun c' hc' => hc c' (List.mem_cons_of_mem _ hc'))
      (fun i hi => hfit i (List.mem_append_right _ hi))

theorem Lines.Refines.foldl_readLine {cs : List LineCall} (hm : m.Refines f)
    (hc : ∀ c ∈ cs, c.PieceOf addr)
    (hfit : ∀ i ∈ cs.flatMap LineCall.bytes, addr.addr + i < 2 ^ 64) (to' : Buffer) :
    cs.foldl (fun t c => m.readLine c.addr (.ofNat 16 c.start) (.ofNat 16 c.len) t c.pos) to' =
      f.loadAt addr (cs.flatMap LineCall.bytes) to' := by
  induction cs generalizing to' with
  | nil => rfl
  | cons c cs ih =>
    rw [List.flatMap_cons] at hfit ⊢
    rw [List.foldl_cons, ← FlatMemory.loadAt_append, hm.readLine (hc c List.mem_cons_self)
      (fun i hi => hfit i (List.mem_append_left _ hi))]
    exact ih (fun c' hc' => hc c' (List.mem_cons_of_mem _ hc'))
      (fun i hi => hfit i (List.mem_append_right _ hi)) _

variable {size : BitVec 32}

theorem Lines.Refines.write (hm : m.Refines f) (h : addr.addr + size.toNat ≤ 2 ^ 64)
    (src : Buffer) : (DSM.write m addr size src).Refines (f.store addr size.toNat src) := by
  have hfit : ∀ i ∈ (lineCalls addr size).flatMap LineCall.bytes, addr.addr + i < 2 ^ 64 := by
    intro i hi
    rw [lineCalls_bytes, List.mem_range] at hi
    omega
  have hrun := hm.foldl_writeLine (lineCalls_pieceOf h) hfit src
  rw [lineCalls_bytes, FlatMemory.storeAt_range] at hrun
  exact hrun

theorem Lines.Refines.read (hm : m.Refines f) (h : addr.addr + size.toNat ≤ 2 ^ 64)
    (to' : Buffer) : DSM.read m addr size to' = f.load addr size.toNat to' := by
  have hfit : ∀ i ∈ (lineCalls addr size).flatMap LineCall.bytes, addr.addr + i < 2 ^ 64 := by
    intro i hi
    rw [lineCalls_bytes, List.mem_range] at hi
    omega
  have hrun := hm.foldl_readLine (lineCalls_pieceOf h) hfit to'
  rw [lineCalls_bytes, FlatMemory.loadAt_range] at hrun
  exact hrun

/-- A program that only stores keeps to the flat memory. -/
theorem Lines.Refines.writes {ws : List Stored} (hm : m.Refines f) (h : ∀ w ∈ ws, w.Fits) :
    (ws.foldl (fun m w => DSM.write m w.addr w.size w.src) m).Refines
      (ws.foldl (fun f w => f.store w.addr w.size.toNat w.src) f) := by
  induction ws generalizing m f with
  | nil => exact hm
  | cons w ws ih =>
    exact ih (hm.write (h w List.mem_cons_self) w.src)
      (fun w' hw' => h w' (List.mem_cons_of_mem _ hw'))

/-- A call stays in its line, and what it is given fits in 16 bits. -/
theorem LineCall.PieceOf.in_line (hc : c.PieceOf addr) :
    c.addr.addr % lineSize = c.start ∧ c.start + c.len ≤ lineSize ∧
      c.start < 2 ^ 16 ∧ c.len < 2 ^ 16 := by
  have hfits := hc.fits
  refine ⟨hc.start_eq, hfits, ?_, ?_⟩
  all_goals
    simp only [lineSize] at hfits
    omega

end Run

namespace DSM

/-- `read` and `write` are those of a flat memory, after any stores; they copy every byte once, and
never past the end of a line. -/
theorem read_write_flat {m : Lines} {f : FlatMemory} {addr : GlobalAddress} {size : BitVec 32}
    {ws : List Stored} (hm : m.Refines f) (h : addr.addr + size.toNat ≤ 2 ^ 64)
    (hws : ∀ w ∈ ws, w.Fits) :
    (∀ src, (write m addr size src).Refines (f.store addr size.toNat src)) ∧
      (∀ to', read m addr size to' = f.load addr size.toNat to') ∧
      (∀ c ∈ lineCalls addr size, c.addr = ⟨addr.addr + c.pos, addr.nodeID⟩ ∧
        c.addr.addr % lineSize = c.start ∧ c.start + c.len ≤ lineSize ∧
        c.start < 2 ^ 16 ∧ c.len < 2 ^ 16) ∧
      (lineCalls addr size).flatMap LineCall.bytes = List.range size.toNat ∧
      ∀ to' i, read (ws.foldl (fun m w => write m w.addr w.size w.src) m) addr size to' i =
        if i < size.toNat then
          (lastStored ws addr.nodeID (addr.addr + i)).getD (f addr.nodeID (addr.addr + i))
        else to' i := by
  refine ⟨hm.write h, hm.read h, fun c hc => ?_, lineCalls_bytes addr size, fun to' i => ?_⟩
  · have hpiece := lineCalls_pieceOf h c hc
    exact ⟨hpiece.addr_eq, hpiece.in_line⟩
  · rw [(hm.writes hws).read h, FlatMemory.load, foldl_store]

/-- The second store lies within the first one, which ends in a third line. -/
theorem read_write_flat_overlap :
    let ws : List Stored :=
      [⟨⟨4094, 3⟩, 4100, fun i => .ofNat 8 i⟩, ⟨⟨8190, 3⟩, 3, fun _ => 7⟩]
    let m := ws.foldl (fun m w => write m w.addr w.size w.src) fun _ _ => 0
    read m ⟨8189, 3⟩ 5 (fun _ => 0) 0 = 255 ∧ read m ⟨8189, 3⟩ 5 (fun _ => 0) 2 = 7 ∧
      read m ⟨8189, 3⟩ 5 (fun _ => 0) 4 = 3 ∧ read m ⟨8189, 3⟩ 5 (fun _ => 9) 5 = 9 := by
  intro ws m
  have hm : Lines.Refines (fun _ _ => 0) (fun _ _ => 0) := fun _ _ _ => rfl
  have hread : ∀ to' i, read m ⟨8189, 3⟩ 5 to' i = if i < 5 then
      (lastStored ws 3 (8189 + i)).getD 0 else to' i :=
    (read_write_flat hm (by decide) (by decide)).2.2.2.2
  refine ⟨(hread _ 0).trans ?_, (hread _ 2).trans ?_, (hread _ 4).trans ?_, (hread _ 5).trans ?_⟩
  all_goals decide

end DSM

end Ting
