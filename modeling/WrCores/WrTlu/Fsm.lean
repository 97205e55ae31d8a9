import WrCores.Clocked.Run
import WrCores.Gencores.BigAdder

/-!
tlu_fsm.vhd, the edge detector of wr_tlu for an input that comes in words of eight samples, the highest bit the
earliest. A change of the input starts a transition, which ends when the samples of the new level are unbroken for
`stable_i`; the time goes back by what was counted since the change, through gc_big_adder. A cycle is one edge of
clk_ref_i without a reset.
-/

namespace WrCores.WrTlu

open Clocked Gencores

inductive TState
  | low
  | transRise
  | high
  | transFall
  | error
  deriving DecidableEq, Repr

structure In where
  triggerI : BitVec 8
  tmTaiCycI : BitVec 64
  activeI : Bool
  edgeI : Bool
  deriving DecidableEq, Repr

structure State where
  rState : TState
  rCnt : BitVec 32
  rCntUnbr : BitVec 32
  rTimeshift : BitVec 32
  sWe : Bool
  rWed0 : Bool
  rWed1 : Bool
  adder : BigAdder 8 9

/-- `rst_ref_n_i` leaves the other registers alone. -/
structure AfterReset (s : State) : Prop where
  rState : s.rState = .low
  rCnt : s.rCnt = 0
  rCntUnbr : s.rCntUnbr = 0
  rWed0 : s.rWed0 = false

inductive Dir
  | lsb
  | msb

def fCount (input : BitVec 8) (thing2count : Bool) : Nat := ((List.range 8).map input.getLsbD).count thing2count

def fCountUnbroken (input : BitVec 8) (thing2count : Bool) (dir : Dir) : Nat :=
  let bits := (List.range 8).map input.getLsbD
  ((match dir with
    | .lsb => bits
    | .msb => bits.reverse).takeWhile (· == thing2count)).length

namespace State

variable (gOffset : Nat) (stableI : BitVec 32) (s : State) (i : In)

def sAddA : BitVec 72 := 0#5 ++ i.tmTaiCycI ++ 0#3

def sAddB : BitVec 72 := BitVec.allOnes 40 ++ ~~~s.rTimeshift

def capturedTimeO : BitVec 67 := s.adder.x2.extractLsb' 0 67

def validO : Bool := s.rWed1

/-- The states of the process `deglitch`. -/
def deglitch : State :=
  let v1unbrMsb := BitVec.ofNat 32 (fCountUnbroken i.triggerI true .msb)
  let v0unbrMsb := BitVec.ofNat 32 (fCountUnbroken i.triggerI false .msb)
  let v1unbrLsb := BitVec.ofNat 32 (fCountUnbroken i.triggerI true .lsb)
  let v0unbrLsb := BitVec.ofNat 32 (fCountUnbroken i.triggerI false .lsb)
  let v1 := BitVec.ofNat 32 (fCount i.triggerI true)
  let v0 := BitVec.ofNat 32 (fCount i.triggerI false)
  let quiet := { s with sWe := false }
  match s.rState with
  | .low =>
      if i.triggerI ≠ 0x00 then { quiet with rCnt := v1, rCntUnbr := v1unbrLsb, rState := .transRise } else quiet
  | .transRise =>
      let counted := { quiet with
        rCnt := s.rCnt + v1, rCntUnbr := if i.triggerI ≠ 0xff then v1unbrLsb else s.rCntUnbr + 8 }
      if s.rCntUnbr + v1unbrMsb ≥ stableI then { counted with sWe := i.edgeI && i.activeI, rState := .high }
      else counted
  | .high =>
      if i.triggerI ≠ 0xff then { quiet with rCnt := v0, rCntUnbr := v0unbrLsb, rState := .transFall } else quiet
  | .transFall =>
      let counted := { quiet with
        rCnt := s.rCnt + v0, rCntUnbr := if i.triggerI ≠ 0x00 then v0unbrLsb else s.rCntUnbr + 8 }
      if s.rCntUnbr + v0unbrMsb ≥ stableI then { counted with sWe := !i.edgeI && i.activeI, rState := .low }
      else counted
  | .error => { quiet with rState := .low }

def step : State :=
  { s.deglitch stableI i with
    rTimeshift := s.rCntUnbr + ((s.rCnt - s.rCntUnbr) >>> 1) + BitVec.ofNat 32 gOffset
    rWed0 := s.sWe
    rWed1 := s.rWed0
    adder := s.adder.main (sAddA i) s.sAddB true }

end State

/-! ### The two levels -/

def fill (v : Bool) : BitVec 8 := if v then 0xff else 0x00

/-- The state in which the level is settled. -/
def rest (v : Bool) : TState := if v then .high else .low

/-- The transition to the level `v`. -/
def trans (v : Bool) : TState := if v then .transRise else .transFall

/-- What a word does to a settled level. -/
theorem deglitch_rest {stable : BitVec 32} {s : State} {v : Bool} (here : s.rState = rest v) (i : In) :
    s.deglitch stable i = if i.triggerI = fill v then { s with sWe := false } else { s with
      rCnt := BitVec.ofNat 32 (fCount i.triggerI !v), rCntUnbr := BitVec.ofNat 32
        (fCountUnbroken i.triggerI (!v) .lsb)
      rState := trans !v, sWe := false } := by
  cases v with
  | false =>
      have low : s.rState = .low := here
      simp only [State.deglitch, low, fill, trans, ne_eq, ite_not]
      rfl
  | true =>
      have high : s.rState = .high := here
      simp only [State.deglitch, high, fill, trans, ne_eq, ite_not]
      rfl

/-- The samples of the new level are unbroken for `stable_i` in the word. -/
def Ends (stable : BitVec 32) (v : Bool) (s : State) (i : In) : Prop :=
  stable ≤ s.rCntUnbr + BitVec.ofNat 32 (fCountUnbroken i.triggerI v .msb)

/-- The counters behind a word of a transition. -/
def counted (v : Bool) (s : State) (i : In) : State :=
  { s with
    rCnt := s.rCnt + BitVec.ofNat 32 (fCount i.triggerI v)
    rCntUnbr := if i.triggerI = fill v then s.rCntUnbr + 8 else BitVec.ofNat 32 (fCountUnbroken i.triggerI v .lsb) }

/-- What a word does to a transition. -/
theorem deglitch_trans {stable : BitVec 32} {s : State} {v : Bool} (here : s.rState = trans v) {i : In}
    (goes : ¬ Ends stable v s i) : s.deglitch stable i = { counted v s i with sWe := false } := by
  rw [Ends] at goes
  cases v with
  | false =>
      have fall : s.rState = .transFall := here
      simp only [State.deglitch, fall, fill, counted, ne_eq, ite_not, ge_iff_le, goes, if_false]
      rfl
  | true =>
      have rise : s.rState = .transRise := here
      simp only [State.deglitch, rise, fill, counted, ne_eq, ite_not, ge_iff_le, goes, if_false]
      rfl

theorem deglitch_ends {stable : BitVec 32} {s : State} {v : Bool} (here : s.rState = trans v) {i : In}
    (ends : Ends stable v s i) :
    s.deglitch stable i = { counted v s i with rState := rest v, sWe := (i.edgeI == v) && i.activeI } := by
  rw [Ends] at ends
  cases v with
  | false =>
      have fall : s.rState = .transFall := here
      simp only [State.deglitch, fall, fill, rest, counted, ne_eq, ite_not, ge_iff_le, ends, if_true]
      cases i.edgeI <;> rfl
  | true =>
      have rise : s.rState = .transRise := here
      simp only [State.deglitch, rise, fill, rest, counted, ne_eq, ite_not, ge_iff_le, ends, if_true]
      cases i.edgeI <;> rfl

/-! ### Two runs -/

/-- Two states report alike in this cycle. -/
def Shows (s t : State) : Prop := s.validO = t.validO ∧ (s.validO = true → s.capturedTimeO = t.capturedTimeO)

/-- What is under way to the outputs is alike. -/
structure Pipes (s t : State) : Prop where
  sWe : s.sWe = t.sWe
  rWed0 : s.rWed0 = t.rWed0
  rWed1 : s.rWed1 = t.rWed1
  shift : s.sWe = true → s.rTimeshift = t.rTimeshift
  first : s.rWed0 = true → s.adder.r1Sum0 = t.adder.r1Sum0 ∧ s.adder.r1P = t.adder.r1P ∧ s.adder.r1G = t.adder.r1G ∧
    s.adder.r1C = t.adder.r1C
  second : s.rWed1 = true → s.adder.r2Sum0 = t.adder.r2Sum0 ∧ s.adder.r2C = t.adder.r2C

/-- What the two know of the samples makes no difference from here on. -/
inductive Twins (stable : BitVec 32) (v : Bool) (s t : State) : Prop
  | equal : s.rState = t.rState → s.rCnt = t.rCnt → s.rCntUnbr = t.rCntUnbr → Twins stable v s t
  | settled : s.rState = rest v → t.rState = rest v → Twins stable v s t
  | nothing : s.rState = trans (!v) → s.rCnt = 0 → s.rCntUnbr = 0 → 8 < stable.toNat → t.rState = rest v →
      Twins stable v s t

variable {gOffset : Nat} {stable : BitVec 32} {v : Bool} {s t : State}

theorem Pipes.shows (pipes : Pipes s t) : Shows s t := by
  refine ⟨pipes.rWed1, fun valid => ?_⟩
  obtain ⟨sums, carries⟩ := pipes.second valid
  have parts : s.adder.sumPart = t.adder.sumPart := by
    funext k
    rw [BigAdder.sumPart, BigAdder.sumPart, sums, carries]
  rw [State.capturedTimeO, State.capturedTimeO, BigAdder.x2, BigAdder.x2, parts]

theorem count_le (x : BitVec 8) (v : Bool) (dir : Dir) : fCountUnbroken x v dir ≤ 8 := by
  refine (List.takeWhile_sublist _).length_le.trans ?_
  cases dir <;> simp

/-- A full word is unbroken. -/
theorem count_fill (v w : Bool) : fCount (fill v) w = if w = v then 8 else 0 := by
  cases v <;> cases w <;> decide

theorem unbroken_fill (v w : Bool) (dir : Dir) : fCountUnbroken (fill v) w dir = if w = v then 8 else 0 := by
  cases v <;> cases w <;> cases dir <;> decide

theorem fill_ne (v : Bool) : fill v ≠ fill !v := by
  cases v <;> decide

/-- One word: nothing tells the two apart. -/
theorem Twins.deglitch (twins : Twins stable v s t) (i : In) : Twins stable v (s.deglitch stable i)
    (t.deglitch stable i) ∧
    (s.deglitch stable i).sWe = (t.deglitch stable i).sWe ∧
    ((s.deglitch stable i).sWe = true → s.rCnt = t.rCnt ∧ s.rCntUnbr = t.rCntUnbr) := by
  cases twins with
  | equal state cnt unbr =>
      have registers : (s.deglitch stable i).rState = (t.deglitch stable i).rState ∧
          (s.deglitch stable i).rCnt = (t.deglitch stable i).rCnt ∧
          (s.deglitch stable i).rCntUnbr = (t.deglitch stable i).rCntUnbr ∧
          (s.deglitch stable i).sWe = (t.deglitch stable i).sWe := by
        unfold State.deglitch
        rw [state, cnt, unbr]
        dsimp only
        repeat' split
        all_goals exact ⟨rfl, rfl, rfl, rfl⟩
      exact ⟨.equal registers.1 registers.2.1 registers.2.2.1, registers.2.2.2, fun _ => ⟨cnt, unbr⟩⟩
  | settled left right =>
      rw [deglitch_rest left, deglitch_rest right]
      by_cases same : i.triggerI = fill v
      · rw [if_pos same, if_pos same]
        exact ⟨.settled left right, rfl, fun none => by cases none⟩
      · rw [if_neg same, if_neg same]
        exact ⟨.equal rfl rfl rfl, rfl, fun none => by cases none⟩
  | nothing left cnt unbr large right =>
      have goes : ¬ Ends stable (!v) s i := by
        have few := count_le i.triggerI (!v) .msb
        rw [Ends, unbr, BitVec.le_def, BitVec.ofNat_eq_ofNat, BitVec.zero_add, BitVec.toNat_ofNat,
          Nat.mod_eq_of_lt (by omega)]
        omega
      rw [deglitch_trans left goes, deglitch_rest right]
      by_cases same : i.triggerI = fill v
      · rw [if_pos same]
        refine ⟨.nothing left ?_ ?_ large right, rfl, fun none => by cases none⟩
        · simp [counted, cnt, same, count_fill]
        · simp [counted, same, fill_ne, unbroken_fill]
      · rw [if_neg same]
        refine ⟨.equal left ?_ ?_, rfl, fun none => by cases none⟩
        · simp [counted, cnt]
        · by_cases full : i.triggerI = fill !v <;> simp [counted, unbr, full, unbroken_fill]

/-- One cycle. -/
theorem Pipes.step (pipes : Pipes s t) (twins : Twins stable v s t) (i : In) :
    Pipes (s.step gOffset stable i) (t.step gOffset stable i) ∧
      Twins stable v (s.step gOffset stable i) (t.step gOffset stable i) := by
  obtain ⟨next, sWe, counts⟩ := twins.deglitch i
  constructor
  · constructor
    · exact sWe
    · exact pipes.sWe
    · exact pipes.rWed0
    · intro reports
      obtain ⟨cnt, unbr⟩ := counts reports
      rw [State.step, State.step, cnt, unbr]
    · intro reports
      have operands : s.sAddB = t.sAddB := by rw [State.sAddB, State.sAddB, pipes.shift reports]
      simp [State.step, BigAdder.main, operands]
    · intro reports
      obtain ⟨sums, p, g, c⟩ := pipes.first reports
      simp [State.step, BigAdder.main, BigAdder.s1R, sums, p, g, c]
  · cases next with
    | equal state cnt unbr => exact .equal state cnt unbr
    | settled left right => exact .settled left right
    | nothing left cnt unbr large right => exact .nothing left cnt unbr large right

theorem twins_run (pipes : Pipes s t) (twins : Twins stable v s t) (common : List In) :
    Shows (run (State.step gOffset stable) s common) (run (State.step gOffset stable) t common) := by
  induction common generalizing s t with
  | nil => exact pipes.shows
  | cons i rest ih =>
      obtain ⟨pipes, twins⟩ := pipes.step twins i
      exact ih pipes twins

end WrCores.WrTlu
