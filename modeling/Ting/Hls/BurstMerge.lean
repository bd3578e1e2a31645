/-
# `Ting.Hls.BurstMerge` — bursts that stay whole

What comes out of `c2hCmdDataDeliverHLS` when every source sends commands that name it, each with a
burst of beats of which the last one and only the last one is marked.  Commands and beats arrive
apart from each other and at any pace.  What comes out is a sequence of bursts, each from one
source, in the order of its source: at any time all but perhaps the last one have come out
completely, and in the end all of them have.  The arbiter may count for 2^32 ticks in between.
-/
import Ting.Hls.CmdDataDeliver
import Ting.Lib.Rounds

namespace Ting

/-! ## Bursts -/

/-- Beats up to the first one with the mark. -/
inductive Ended : List StructC2hData → Prop
  | last {d : StructC2hData} (h : d.last = 1) : Ended [d]
  | more {d : StructC2hData} {ds : List StructC2hData} (h : d.last = 0) (hds : Ended ds) :
      Ended (d :: ds)

theorem Ended.ne_nil {beats : List StructC2hData} (h : Ended beats) : beats ≠ [] := by
  cases h <;> exact List.cons_ne_nil _ _

/-- A command with its beats. -/
structure C2hBurst where
  cmd : StructC2hCmd
  beats : List StructC2hData
  ended : Ended beats

/-- The beats of some bursts, as they are forwarded. -/
def forwardedBeats (order : List (C2hSource × C2hBurst)) : List StructC2hData :=
  order.flatMap fun b => b.2.beats.map StructC2hData.forwarded

/-- Those of one source. -/
def burstsOf (src : C2hSource) (order : List (C2hSource × C2hBurst)) : List C2hBurst :=
  (order.filter fun b => b.1 = src).map Prod.snd

theorem burstsOf_append_self {src : C2hSource} {b : C2hBurst} {order : List (C2hSource × C2hBurst)} :
    burstsOf src (order ++ [(src, b)]) = burstsOf src order ++ [b] := by
  simp [burstsOf]

theorem burstsOf_append_of_ne {src src' : C2hSource} {b : C2hBurst}
    {order : List (C2hSource × C2hBurst)} (h : src' ≠ src) :
    burstsOf src (order ++ [(src', b)]) = burstsOf src order := by
  simp [burstsOf, h]

/-! ## Ticks -/

namespace CmdDataDeliver

variable {s s' : CmdDataDeliver}

/-- What a tick does. -/
inductive Ticked (s : CmdDataDeliver) : CmdDataDeliver → Prop
  | idle (hend : s.regEndFlag = true) (hnone : ∀ src, s.valid src = false) :
      Ticked s { s with regReadyFlagIdx := 0xffff }
  | count (hend : s.regEndFlag = true) (hall : ∀ src, s.valid src = true)
      (hmore : s.regReadyFlagIdx.toNat + 1 < 2 ^ 32) :
      Ticked s { s with regReadyFlagIdx := s.regReadyFlagIdx + 1 }
  | first {src : C2hSource} {c : StructC2hCmd} {cs : List StructC2hCmd} {d : StructC2hData}
      {ds : List StructC2hData} (hend : s.regEndFlag = true) (hc : s.c2hCmdIn src = c :: cs)
      (hd : s.c2hDataIn src = d :: ds) : Ticked s { s with
        c2hCmdIn := Function.update s.c2hCmdIn src cs
        c2hDataIn := Function.update s.c2hDataIn src ds
        c2hCmdOut := s.c2hCmdOut ++ [c.forwarded]
        c2hDataOut := s.c2hDataOut ++ [d.forwarded]
        regC2hCmd := if d.last = 0 then c else s.regC2hCmd
        regEndFlag := if d.last = 0 then false else s.regEndFlag
        regReadyFlagIdx := s.nextIdx }
  | wait (hend : s.regEndFlag = false)
      (hnone : ∀ src, C2hSource.ofQid s.regC2hCmd.qid = some src → s.c2hDataIn src = []) : Ticked s s
  | beat {src : C2hSource} {d : StructC2hData} {ds : List StructC2hData}
      (hend : s.regEndFlag = false) (hq : C2hSource.ofQid s.regC2hCmd.qid = some src)
      (hd : s.c2hDataIn src = d :: ds) : Ticked s { s with
        c2hDataIn := Function.update s.c2hDataIn src ds
        c2hDataOut := s.c2hDataOut ++ [d.forwarded]
        regEndFlag := if d.last = 1 then true else s.regEndFlag }

theorem Ticked.select_first {src : C2hSource} (hend : s.regEndFlag = true) (hv : s.valid src)
    (hi : s.nextIdx = src.idx) : Ticked s s.select := by
  obtain ⟨c, cs, d, ds, hc, hd⟩ := first_of_valid hv
  have hsel : s.select = { s with
        c2hCmdIn := Function.update s.c2hCmdIn src cs
        c2hDataIn := Function.update s.c2hDataIn src ds
        c2hCmdOut := s.c2hCmdOut ++ [c.forwarded]
        c2hDataOut := s.c2hDataOut ++ [d.forwarded]
        regC2hCmd := if d.last = 0 then c else s.regC2hCmd
        regEndFlag := if d.last = 0 then false else s.regEndFlag
        regReadyFlagIdx := s.nextIdx } := by
    simp only [select, hi, C2hSource.ofIdx_idx, CmdDataDeliver.first, hc, hd]
  rw [hsel]
  exact .first hend hc hd

theorem ticked (s : CmdDataDeliver) : Ticked s s.tick := by
  unfold tick
  split
  next hend =>
    rcases readyFlagIdx_cases (s.valid .bmapp) (s.valid .bmsys) (s.valid .d)
      s.regReadyFlagIdx with ⟨hv, hi⟩ | ⟨hv, hi⟩ | ⟨hv, hi⟩ | ⟨hb, hs, hd⟩ | ⟨hb, hs, hd, hp, hi⟩
    · exact .select_first hend (show s.valid .bmapp = true from hv) hi
    · exact .select_first hend (show s.valid .bmsys = true from hv) hi
    · exact .select_first hend (show s.valid .d = true from hv) hi
    · have hidx : s.nextIdx = 0xffff := by
        rw [nextIdx, hb, hs, hd]
        rfl
      have hsel : s.select = { s with regReadyFlagIdx := 0xffff } := by
        rw [select, hidx]
        rfl
      rw [hsel]
      exact .idle hend fun src => by cases src <;> assumption
    · have hall : ∀ src, s.valid src = true := fun src => by cases src <;> assumption
      rcases Nat.lt_or_ge (s.regReadyFlagIdx.toNat + 1) (2 ^ 32) with hlt | hge
      · cases hof : C2hSource.ofIdx (s.regReadyFlagIdx + 1) with
        | none =>
            have hsel : s.select = { s with regReadyFlagIdx := s.regReadyFlagIdx + 1 } := by
              rw [select, nextIdx, hi, hof]
            rw [hsel]
            exact .count hend hall hlt
        | some src => exact .select_first hend (hall src) (hi.trans (C2hSource.eq_idx_of_ofIdx hof))
      · have hmax : s.regReadyFlagIdx + 1 = 0 := by
          have := s.regReadyFlagIdx.isLt
          refine BitVec.eq_of_toNat_eq ?_
          change (s.regReadyFlagIdx.toNat + 1) % 2 ^ 32 = 0
          omega
        exact .select_first hend (show s.valid .bmapp = true from hb) (hi.trans hmax)
  next hend =>
    have hend : s.regEndFlag = false := Bool.eq_false_iff.mpr hend
    unfold goOn
    split
    next src hq =>
      unfold CmdDataDeliver.beat
      split
      next d ds hd => exact .beat hend hq hd
      next hd =>
        refine .wait hend fun src' hq' => ?_
        obtain rfl := Option.some.inj (hq.symm.trans hq')
        exact hd
    next hq => exact .wait hend fun src hq' => by cases hq.symm.trans hq'

end CmdDataDeliver

/-! ## The sources -/

/-- The arbiter, and what has still to arrive. -/
structure BurstFeed where
  cmdTodo : C2hSource → List StructC2hCmd
  dataTodo : C2hSource → List StructC2hData
  arbiter : CmdDataDeliver

namespace BurstFeed

/-- A command or a beat arrives from a source, or a tick. -/
inductive Action
  | cmdArrives (src : C2hSource)
  | dataArrives (src : C2hSource)
  | tick

/-- One action. -/
def step (s : BurstFeed) : Action → BurstFeed
  | .cmdArrives src =>
      match s.cmdTodo src with
      | c :: cs => { s with
          cmdTodo := Function.update s.cmdTodo src cs
          arbiter := { s.arbiter with
            c2hCmdIn := Function.update s.arbiter.c2hCmdIn src (s.arbiter.c2hCmdIn src ++ [c]) } }
      | [] => s
  | .dataArrives src =>
      match s.dataTodo src with
      | d :: ds => { s with
          dataTodo := Function.update s.dataTodo src ds
          arbiter := { s.arbiter with
            c2hDataIn := Function.update s.arbiter.c2hDataIn src (s.arbiter.c2hDataIn src ++ [d]) } }
      | [] => s
  | .tick => { s with arbiter := s.arbiter.tick }

/-- A sequence of actions. -/
def run (s : BurstFeed) (acts : List Action) : BurstFeed :=
  acts.foldl step s

/-- The sources have these bursts to send, and nothing has arrived yet. -/
def start (bursts : C2hSource → List C2hBurst) : BurstFeed where
  cmdTodo src := (bursts src).map C2hBurst.cmd
  dataTodo src := (bursts src).flatMap C2hBurst.beats
  arbiter := .start

/-! ## Invariant -/

/-- The beats of the burst that is under way, as the arbiter has it in its registers. -/
inductive UnderWay (s : CmdDataDeliver) : Option C2hSource → List StructC2hData → Prop
  | no (hend : s.regEndFlag = true) : UnderWay s none []
  | yes {src : C2hSource} {rest : List StructC2hData} (hend : s.regEndFlag = false)
      (hq : s.regC2hCmd.qid = src.pseudoQid) (hrest : Ended rest) : UnderWay s (some src) rest

/-- Up to now the bursts of `order` have been taken, the last but for `rest`, and `left` has not. -/
structure Merging (bursts : C2hSource → List C2hBurst) (s : BurstFeed)
    (order : List (C2hSource × C2hBurst)) (left : C2hSource → List C2hBurst)
    (cur : Option C2hSource) (rest : List StructC2hData) : Prop where
  split : ∀ src, burstsOf src order ++ left src = bursts src
  cmds : ∀ src, s.arbiter.c2hCmdIn src ++ s.cmdTodo src = (left src).map C2hBurst.cmd
  beats : ∀ src, s.arbiter.c2hDataIn src ++ s.dataTodo src =
    (if cur = some src then rest else []) ++ (left src).flatMap C2hBurst.beats
  cmdOut : s.arbiter.c2hCmdOut = order.map fun b => b.2.cmd.forwarded
  dataOut : s.arbiter.c2hDataOut ++ rest.map StructC2hData.forwarded = forwardedBeats order
  underWay : UnderWay s.arbiter cur rest
  whole : rest ≠ [] → ∃ o b, order = o ++ [b] ∧
    (forwardedBeats o).length < s.arbiter.c2hDataOut.length

section Steps

variable {bursts left : C2hSource → List C2hBurst} {s : BurstFeed}
  {order : List (C2hSource × C2hBurst)} {cur : Option C2hSource} {rest : List StructC2hData}

theorem Merging.start (bursts : C2hSource → List C2hBurst) :
    Merging bursts (start bursts) [] bursts none [] where
  split _ := rfl
  cmds _ := rfl
  beats _ := rfl
  cmdOut := rfl
  dataOut := rfl
  underWay := .no rfl
  whole h := absurd rfl h

/-- What arrives leaves the streams as they are, together with what is to come. -/
theorem update_append {α : Type} {f g : C2hSource → List α} {src : C2hSource} {x : α} {xs : List α}
    (hg : g src = x :: xs) (src' : C2hSource) :
    Function.update f src (f src ++ [x]) src' ++ Function.update g src xs src' =
      f src' ++ g src' := by
  rcases eq_or_ne src' src with rfl | hne
  · rw [Function.update_self, Function.update_self, hg, List.append_assoc, List.singleton_append]
  · rw [Function.update_of_ne hne, Function.update_of_ne hne]

theorem Merging.arrive (h : Merging bursts s order left cur rest) {a : Action} (ha : a ≠ .tick) :
    Merging bursts (s.step a) order left cur rest := by
  cases a with
  | tick => exact absurd rfl ha
  | cmdArrives src =>
      unfold step
      dsimp only
      split
      next c cs hc =>
        refine ⟨h.split, fun src' => ?_, h.beats, h.cmdOut, h.dataOut, ?_, h.whole⟩
        · exact (update_append hc src').trans (h.cmds src')
        · cases h.underWay with
          | no hend => exact .no hend
          | yes hend hq hrest => exact .yes hend hq hrest
      next => exact h
  | dataArrives src =>
      unfold step
      dsimp only
      split
      next d ds hd =>
        refine ⟨h.split, h.cmds, fun src' => ?_, h.cmdOut, h.dataOut, ?_, h.whole⟩
        · exact (update_append hd src').trans (h.beats src')
        · cases h.underWay with
          | no hend => exact .no hend
          | yes hend hq hrest => exact .yes hend hq hrest
      next => exact h

/-- A tick that only steps the register. -/
theorem Merging.idx (h : Merging bursts s order left cur rest) (i : BitVec 32) :
    Merging bursts { s with arbiter := { s.arbiter with regReadyFlagIdx := i } } order left cur
      rest where
  split := h.split
  cmds := h.cmds
  beats := h.beats
  cmdOut := h.cmdOut
  dataOut := h.dataOut
  whole := h.whole
  underWay := by
    cases h.underWay with
    | no hend => exact .no hend
    | yes hend hq hrest => exact .yes hend hq hrest

/-- The next burst of a source that has one to send. -/
theorem Merging.next_burst {src : C2hSource} {c : StructC2hCmd} {cs : List StructC2hCmd}
    (h : Merging bursts s order left cur rest) (hc : s.arbiter.c2hCmdIn src = c :: cs) :
    ∃ b bs, left src = b :: bs ∧ b.cmd = c ∧ cs ++ s.cmdTodo src = bs.map C2hBurst.cmd := by
  have hcmds := h.cmds src
  rw [hc, List.cons_append] at hcmds
  obtain ⟨b, bs, hl, hb, hbs⟩ := List.map_eq_cons_iff.mp hcmds.symm
  exact ⟨b, bs, hl, hb, hbs.symm⟩

/-- A tick that takes up a burst; what is left of it is `rest`. -/
theorem Merging.take {src : C2hSource} {b : C2hBurst} {bs : List C2hBurst}
    {cs : List StructC2hCmd} {d : StructC2hData} {ds rest : List StructC2hData}
    {arbiter : CmdDataDeliver} (h : Merging bursts s order left none [])
    (hl : left src = b :: bs) (hcs : cs ++ s.cmdTodo src = bs.map C2hBurst.cmd)
    (hd : s.arbiter.c2hDataIn src = d :: ds) (hb : b.beats = d :: rest)
    (hcmdIn : arbiter.c2hCmdIn = Function.update s.arbiter.c2hCmdIn src cs)
    (hdataIn : arbiter.c2hDataIn = Function.update s.arbiter.c2hDataIn src ds)
    (hcmdOut : arbiter.c2hCmdOut = s.arbiter.c2hCmdOut ++ [b.cmd.forwarded])
    (hdataOut : arbiter.c2hDataOut = s.arbiter.c2hDataOut ++ [d.forwarded])
    (hcur : cur ≠ some src → rest = []) (hother : ∀ src', src' ≠ src → cur ≠ some src')
    (hway : UnderWay arbiter cur rest) :
    Merging bursts { s with arbiter := arbiter } (order ++ [(src, b)])
      (Function.update left src bs) cur rest where
  split src' := by
    rcases eq_or_ne src' src with rfl | hne
    · rw [burstsOf_append_self, Function.update_self, List.append_assoc, List.singleton_append,
        ← hl, h.split]
    · rw [burstsOf_append_of_ne hne.symm, Function.update_of_ne hne, h.split]
  cmds src' := by
    rw [hcmdIn]
    rcases eq_or_ne src' src with rfl | hne
    · rw [Function.update_self, Function.update_self]
      exact hcs
    · rw [Function.update_of_ne hne, Function.update_of_ne hne]
      exact h.cmds src'
  beats src' := by
    have hbeats := h.beats src'
    rw [if_neg (by exact nofun), List.nil_append] at hbeats
    dsimp only
    rw [hdataIn]
    rcases eq_or_ne src' src with rfl | hne
    · rw [hd, hl, List.flatMap_cons, hb, List.cons_append, List.cons_append] at hbeats
      rw [Function.update_self, Function.update_self, (List.cons.inj hbeats).2]
      split
      next => rfl
      next hne => rw [hcur hne, List.nil_append]
    · rw [Function.update_of_ne hne, Function.update_of_ne hne, if_neg (hother src' hne),
        List.nil_append]
      exact hbeats
  cmdOut := by
    rw [hcmdOut, h.cmdOut, List.map_append]
    rfl
  dataOut := by
    have hout := h.dataOut
    rw [List.map_nil, List.append_nil] at hout
    rw [hdataOut, hout, forwardedBeats, forwardedBeats, List.flatMap_append, List.append_assoc,
      List.flatMap_singleton, hb, List.map_cons, List.singleton_append]
  underWay := hway
  whole _ := by
    refine ⟨order, (src, b), rfl, ?_⟩
    have hout := h.dataOut
    rw [List.map_nil, List.append_nil] at hout
    rw [hdataOut, hout, List.length_append]
    exact Nat.lt_succ_self _

/-- A tick that goes on with a burst; what is left of it is `rest'`. -/
theorem Merging.goOn {src : C2hSource} {d : StructC2hData} {ds rest' : List StructC2hData}
    {cur' : Option C2hSource} {arbiter : CmdDataDeliver}
    (h : Merging bursts s order left (some src) (d :: rest'))
    (hd : s.arbiter.c2hDataIn src = d :: ds)
    (hcmdIn : arbiter.c2hCmdIn = s.arbiter.c2hCmdIn)
    (hdataIn : arbiter.c2hDataIn = Function.update s.arbiter.c2hDataIn src ds)
    (hcmdOut : arbiter.c2hCmdOut = s.arbiter.c2hCmdOut)
    (hdataOut : arbiter.c2hDataOut = s.arbiter.c2hDataOut ++ [d.forwarded])
    (hcur : cur' ≠ some src → rest' = []) (hother : ∀ src', src' ≠ src → cur' ≠ some src')
    (hway : UnderWay arbiter cur' rest') :
    Merging bursts { s with arbiter := arbiter } order left cur' rest' where
  split := h.split
  cmds src' := by
    rw [hcmdIn]
    exact h.cmds src'
  beats src' := by
    have hbeats := h.beats src'
    dsimp only
    rw [hdataIn]
    rcases eq_or_ne src' src with rfl | hne
    · rw [hd, if_pos rfl, List.cons_append, List.cons_append] at hbeats
      rw [Function.update_self, (List.cons.inj hbeats).2]
      split
      next => rfl
      next hne => rw [hcur hne]
    · rw [if_neg fun he => hne (Option.some.inj he).symm] at hbeats
      rw [Function.update_of_ne hne, if_neg (hother src' hne)]
      exact hbeats
  cmdOut := hcmdOut.trans h.cmdOut
  dataOut := by
    rw [← h.dataOut, hdataOut, List.append_assoc, List.map_cons, List.singleton_append]
  underWay := hway
  whole _ := by
    obtain ⟨o, b, ho, hlt⟩ := h.whole (List.cons_ne_nil _ _)
    refine ⟨o, b, ho, ?_⟩
    rw [hdataOut, List.length_append]
    exact Nat.lt_succ_of_lt hlt

theorem Merging.tick (h : Merging bursts s order left cur rest)
    (hq : ∀ src, ∀ b ∈ bursts src, b.cmd.qid = src.pseudoQid) : ∃ order' left' cur' rest',
      Merging bursts (s.step .tick) order' left' cur' rest' := by
  have hmem : ∀ {src : C2hSource} {b : C2hBurst}, b ∈ left src → b.cmd.qid = src.pseudoQid := by
    intro src b hb
    refine hq src b ?_
    rw [← h.split src]
    exact List.mem_append_right _ hb
  have hstep : s.step .tick = { s with arbiter := s.arbiter.tick } := rfl
  rw [hstep]
  have ht := CmdDataDeliver.ticked s.arbiter
  generalize s.arbiter.tick = arbiter at ht
  cases ht with
  | idle | count => exact ⟨order, left, cur, rest, h.idx _⟩
  | wait => exact ⟨order, left, cur, rest, h⟩
  | @first src c cs d ds hend hc hd =>
      cases h.underWay with
      | yes hno => cases hend.symm.trans hno
      | no =>
          obtain ⟨b, bs, hl, rfl, hcs⟩ := h.next_burst hc
          have hbeats := h.beats src
          rw [if_neg (by exact nofun), List.nil_append, hd, hl, List.flatMap_cons,
            List.cons_append] at hbeats
          have hended := b.ended
          generalize hb : b.beats = beats at hended hbeats
          cases hended with
          | @last d' hlast =>
              obtain rfl := (List.cons.inj hbeats).1
              have hne : d.last ≠ 0 := by
                rw [hlast]
                decide
              refine ⟨_, _, none, [], h.take hl hcs hd hb rfl rfl rfl rfl (fun _ => rfl)
                (fun _ _ => nofun) (.no ?_)⟩
              dsimp only
              rw [if_neg hne]
              exact hend
          | @more d' rest' hzero hrest =>
              obtain rfl := (List.cons.inj hbeats).1
              refine ⟨_, _, some src, rest', h.take hl hcs hd hb rfl rfl rfl rfl
                (fun hne => absurd rfl hne) (fun src' hne he => hne (Option.some.inj he).symm)
                (.yes ?_ ?_ hrest)⟩
              · exact if_pos hzero
              · dsimp only
                rw [if_pos hzero]
                exact hmem (hl ▸ List.mem_cons_self)
  | @beat src d ds hend hsrc hd =>
      cases h.underWay with
      | no hyes => cases hend.symm.trans hyes
      | @yes src' _ _ hqid hrest =>
          rw [hqid, C2hSource.ofQid_pseudoQid] at hsrc
          obtain rfl := Option.some.inj hsrc
          have hbeats := h.beats src'
          rw [if_pos rfl, hd, List.cons_append] at hbeats
          cases hrest with
          | @last d' hlast =>
              obtain rfl := (List.cons.inj hbeats).1
              refine ⟨_, _, none, [], h.goOn hd rfl rfl rfl rfl (fun _ => rfl)
                (fun _ _ => nofun) (.no ?_)⟩
              exact if_pos hlast
          | @more d' rest' hzero hrest =>
              obtain rfl := (List.cons.inj hbeats).1
              have hne : d.last ≠ 1 := by
                rw [hzero]
                decide
              refine ⟨_, _, some src', rest', h.goOn hd rfl rfl rfl rfl
                (fun hne => absurd rfl hne) (fun src' hne he => hne (Option.some.inj he).symm)
                (.yes ?_ hqid hrest)⟩
              dsimp only
              rw [if_neg hne]
              exact hend

/-- At any time the arbiter is at some burst of some order. -/
theorem Merging.run (h : Merging bursts s order left cur rest)
    (hq : ∀ src, ∀ b ∈ bursts src, b.cmd.qid = src.pseudoQid) (acts : List Action) :
    ∃ order' left' cur' rest', Merging bursts (s.run acts) order' left' cur' rest' := by
  induction acts generalizing s order left cur rest with
  | nil => exact ⟨order, left, cur, rest, h⟩
  | cons a acts ih =>
      rw [BurstFeed.run, List.foldl_cons]
      cases a with
      | tick =>
          obtain ⟨order', left', cur', rest', h'⟩ := h.tick hq
          exact ih h'
      | cmdArrives | dataArrives => exact ih (h.arrive nofun)

end Steps

/-! ## Rest -/

/-- The elements of three streams. -/
def load {α : Type} (f : C2hSource → List α) : ℕ :=
  (f .bmapp).length + (f .bmsys).length + (f .d).length

theorem load_update {α : Type} (f : C2hSource → List α) (src : C2hSource) (xs : List α) :
    load (Function.update f src xs) + (f src).length = load f + xs.length := by
  cases src <;> simp [load] <;> omega

/-- The ticks in a row that may forward nothing. -/
def idleTicks (s : CmdDataDeliver) : ℕ :=
  if s.valid .bmapp then 2 ^ 32 - s.regReadyFlagIdx.toNat
  else if s.regReadyFlagIdx = 0xffff then 0 else 1

theorem idleTicks_le (s : CmdDataDeliver) : idleTicks s ≤ 2 ^ 32 := by
  unfold idleTicks
  split
  · exact Nat.sub_le _ _
  · split <;> omega

/-- The actions that it takes until everything has come out. -/
def work (s : BurstFeed) : ℕ :=
  2 ^ 33 * (2 * load s.cmdTodo + 2 * load s.dataTodo + load s.arbiter.c2hCmdIn +
    load s.arbiter.c2hDataIn) + idleTicks s.arbiter

/-- Less in the streams is less work, however many ticks are idle. -/
theorem work_lt {s s' : BurstFeed}
    (h : 2 * load s'.cmdTodo + 2 * load s'.dataTodo + load s'.arbiter.c2hCmdIn +
        load s'.arbiter.c2hDataIn <
      2 * load s.cmdTodo + 2 * load s.dataTodo + load s.arbiter.c2hCmdIn +
        load s.arbiter.c2hDataIn) : s'.work < s.work := by
  have hidle := idleTicks_le s'.arbiter
  unfold work
  omega

/-- An action changes nothing, or it does some of the work. -/
theorem step_eq_or_lt (s : BurstFeed) (a : Action) : s.step a = s ∨ (s.step a).work < s.work := by
  cases a with
  | cmdArrives src =>
      unfold step
      dsimp only
      split
      next c cs hc =>
        refine .inr (work_lt ?_)
        have htodo := load_update s.cmdTodo src cs
        have hin := load_update s.arbiter.c2hCmdIn src (s.arbiter.c2hCmdIn src ++ [c])
        rw [hc, List.length_cons] at htodo
        rw [List.length_append, List.length_singleton] at hin
        dsimp only
        omega
      next => exact .inl rfl
  | dataArrives src =>
      unfold step
      dsimp only
      split
      next d ds hd =>
        refine .inr (work_lt ?_)
        have htodo := load_update s.dataTodo src ds
        have hin := load_update s.arbiter.c2hDataIn src (s.arbiter.c2hDataIn src ++ [d])
        rw [hd, List.length_cons] at htodo
        rw [List.length_append, List.length_singleton] at hin
        dsimp only
        omega
      next => exact .inl rfl
  | tick =>
      have hstep : s.step .tick = { s with arbiter := s.arbiter.tick } := rfl
      rw [hstep]
      have ht := CmdDataDeliver.ticked s.arbiter
      generalize s.arbiter.tick = arbiter at ht
      cases ht with
      | wait => exact .inl rfl
      | idle hend hnone =>
          rcases eq_or_ne s.arbiter.regReadyFlagIdx 0xffff with he | hne
          · left
            rw [← he]
          · refine .inr (Nat.add_lt_add_left ?_ _)
            have hv := hnone .bmapp
            have hbefore : idleTicks s.arbiter = 1 := by
              rw [idleTicks, if_neg (by rw [hv]; exact nofun), if_neg hne]
            rw [hbefore, idleTicks, if_neg (by exact fun h => nomatch hv.symm.trans h), if_pos rfl]
            exact Nat.zero_lt_one
      | count hend hall hmore =>
          refine .inr (Nat.add_lt_add_left ?_ _)
          have hv := hall .bmapp
          have hnat : (s.arbiter.regReadyFlagIdx + 1).toNat = s.arbiter.regReadyFlagIdx.toNat + 1 :=
            Nat.mod_eq_of_lt hmore
          rw [idleTicks, idleTicks, if_pos hv, if_pos (by exact hv)]
          dsimp only
          rw [hnat]
          omega
      | @first src c cs d ds hend hc hd =>
          refine .inr (work_lt ?_)
          have hcmd := load_update s.arbiter.c2hCmdIn src cs
          have hdata := load_update s.arbiter.c2hDataIn src ds
          rw [hc, List.length_cons] at hcmd
          rw [hd, List.length_cons] at hdata
          dsimp only
          omega
      | @beat src d ds hend hq hd =>
          refine .inr (work_lt ?_)
          have hdata := load_update s.arbiter.c2hDataIn src ds
          rw [hd, List.length_cons] at hdata
          dsimp only
          omega

/-- When nothing changes any more, all bursts have come out. -/
theorem Merging.left_of_atRest {bursts left : C2hSource → List C2hBurst} {s : BurstFeed}
    {order : List (C2hSource × C2hBurst)} {cur : Option C2hSource} {rest : List StructC2hData}
    (h : Merging bursts s order left cur rest) (hrest : Rounds.AtRest step s) :
    (∀ src, left src = []) ∧ rest = [] := by
  have hcmdTodo : ∀ src, s.cmdTodo src = [] := by
    intro src
    have ha := hrest (.cmdArrives src)
    cases hc : s.cmdTodo src with
    | nil => rfl
    | cons c cs =>
        have htodo := congrArg (fun s => s.cmdTodo src) ha
        simp only [step, hc, Function.update_self] at htodo
        exact absurd htodo List.ne_cons_self
  have hdataTodo : ∀ src, s.dataTodo src = [] := by
    intro src
    have ha := hrest (.dataArrives src)
    cases hd : s.dataTodo src with
    | nil => rfl
    | cons d ds =>
        have htodo := congrArg (fun s => s.dataTodo src) ha
        simp only [step, hd, Function.update_self] at htodo
        exact absurd htodo List.ne_cons_self
  have hcmds : ∀ src, s.arbiter.c2hCmdIn src = (left src).map C2hBurst.cmd := by
    intro src
    rw [← h.cmds src, hcmdTodo src, List.append_nil]
  have hbeats : ∀ src, s.arbiter.c2hDataIn src = (if cur = some src then rest else []) ++
      (left src).flatMap C2hBurst.beats := by
    intro src
    rw [← h.beats src, hdataTodo src, List.append_nil]
  have hsame : s.arbiter.tick = s.arbiter := congrArg BurstFeed.arbiter (hrest .tick)
  have ht := CmdDataDeliver.ticked s.arbiter
  generalize s.arbiter.tick = arbiter at ht hsame
  cases ht with
  | idle hend hnone =>
      cases h.underWay with
      | yes hno => cases hend.symm.trans hno
      | no =>
          refine ⟨fun src => ?_, rfl⟩
          have hv := hnone src
          rw [CmdDataDeliver.valid, hcmds src, hbeats src, if_neg (by exact nofun),
            List.nil_append] at hv
          cases hl : left src with
          | nil => rfl
          | cons b bs =>
              have hne := b.ended.ne_nil
              rw [hl, List.flatMap_cons] at hv
              cases hb : b.beats with
              | nil => exact absurd hb hne
              | cons d ds =>
                  rw [hb] at hv
                  cases hv
  | count hend hall hmore =>
      have hidx := congrArg (fun s => s.regReadyFlagIdx.toNat) hsame
      have hnat : (s.arbiter.regReadyFlagIdx + 1).toNat = s.arbiter.regReadyFlagIdx.toNat + 1 :=
        Nat.mod_eq_of_lt hmore
      exact absurd (hnat.symm.trans hidx) (Nat.succ_ne_self _)
  | first hend hc hd =>
      have hout := congrArg CmdDataDeliver.c2hCmdOut hsame
      exact absurd (List.append_right_eq_self.mp hout) (List.cons_ne_nil _ _)
  | wait hend hnone =>
      cases h.underWay with
      | no hyes => cases hend.symm.trans hyes
      | @yes src _ _ hq hended =>
          have hempty := hnone src (by rw [hq, C2hSource.ofQid_pseudoQid])
          rw [hbeats src, if_pos rfl] at hempty
          exact absurd (List.append_eq_nil_iff.mp hempty).1 hended.ne_nil
  | beat hend hq hd =>
      have hout := congrArg CmdDataDeliver.c2hDataOut hsame
      exact absurd (List.append_right_eq_self.mp hout) (List.cons_ne_nil _ _)

/-! ## Merge -/

/-- At any time the arbiter has put out some bursts, those of each source in order, each command
with its beats and no others between them, all but perhaps the last one completely; and in the end,
whatever the order of arrivals and ticks, it has put out all of them. -/
theorem bursts_kept_whole (bursts : C2hSource → List C2hBurst)
    (hq : ∀ src, ∀ b ∈ bursts src, b.cmd.qid = src.pseudoQid) :
    (∀ acts, ∃ order rest, (∀ src, burstsOf src order <+: bursts src) ∧
      ((start bursts).run acts).arbiter.c2hCmdOut = (order.map fun b => b.2.cmd.forwarded) ∧
      ((start bursts).run acts).arbiter.c2hDataOut ++ rest = forwardedBeats order ∧
      (rest ≠ [] → ∃ o b, order = o ++ [b] ∧
        (forwardedBeats o).length < ((start bursts).run acts).arbiter.c2hDataOut.length)) ∧
    ∃ n, ∀ rounds : List (List Action), n ≤ rounds.length →
      (∀ r ∈ rounds, Rounds.IsRound id r) → ∃ order, (∀ src, burstsOf src order = bursts src) ∧
        ((start bursts).run rounds.flatten).arbiter.c2hCmdOut =
          (order.map fun b => b.2.cmd.forwarded) ∧
        ((start bursts).run rounds.flatten).arbiter.c2hDataOut = forwardedBeats order := by
  refine ⟨fun acts => ?_, (start bursts).work, fun rounds hlen hrounds => ?_⟩
  · obtain ⟨order, left, cur, rest, h⟩ := (Merging.start bursts).run hq acts
    refine ⟨order, rest.map StructC2hData.forwarded, fun src => ⟨left src, h.split src⟩, h.cmdOut,
      h.dataOut, fun hne => h.whole fun hnil => hne (by rw [hnil]; rfl)⟩
  · obtain ⟨order, left, cur, rest, h⟩ := (Merging.start bursts).run hq rounds.flatten
    have hstep : ∀ (s : BurstFeed) (k : Action), (∀ a, id a = k → s.step a = s) ∨
        ∀ a, id a = k → (s.step a).work < s.work := by
      intro s k
      rcases s.step_eq_or_lt k with hsame | hlt
      · left
        rintro a rfl
        exact hsame
      · right
        rintro a rfl
        exact hlt
    have hatRest : Rounds.AtRest step ((start bursts).run rounds.flatten) :=
      Rounds.atRest_of_rounds hstep rounds hrounds (start bursts) hlen
    obtain ⟨hleft, rfl⟩ := h.left_of_atRest hatRest
    refine ⟨order, fun src => ?_, h.cmdOut, ?_⟩
    · rw [← h.split src, hleft src, List.append_nil]
    · rw [← h.dataOut, List.map_nil, List.append_nil]

/-- A message for an application, and a payload of two beats. -/
def messageAndPayload : C2hSource → List C2hBurst
  | .bmapp => [⟨⟨0, 64, 0⟩, [⟨1, 0, 1⟩], .last rfl⟩]
  | .bmsys => []
  | .d => [⟨⟨64, 128, pseudoQidD⟩, [⟨2, 0, 0⟩, ⟨3, 0, 1⟩], .more rfl (.last rfl)⟩]

/-- Each action once. -/
def everyAction : List Action :=
  [.cmdArrives .bmapp, .cmdArrives .bmsys, .cmdArrives .d, .dataArrives .bmapp, .dataArrives .bmsys,
    .dataArrives .d, .tick]

theorem isRound_everyAction : Rounds.IsRound id everyAction := by
  intro a
  refine ⟨a, ?_, rfl⟩
  cases a with
  | tick => simp [everyAction]
  | cmdArrives src | dataArrives src => cases src <;> simp [everyAction]

theorem bursts_kept_whole_two : ∃ acts order,
    (∀ src, burstsOf src order = messageAndPayload src) ∧
      ((start messageAndPayload).run acts).arbiter.c2hDataOut = forwardedBeats order := by
  obtain ⟨-, n, hn⟩ := bursts_kept_whole messageAndPayload fun src b hb => by
    cases src with
    | bmsys => cases hb
    | bmapp | d =>
        cases List.mem_singleton.mp hb
        rfl
  obtain ⟨order, horder, -, hout⟩ := hn (List.replicate n everyAction)
    (Nat.le_of_eq List.length_replicate.symm)
    fun r hr => List.eq_of_mem_replicate hr ▸ isRound_everyAction
  exact ⟨_, order, horder, hout⟩

end BurstFeed

end Ting
