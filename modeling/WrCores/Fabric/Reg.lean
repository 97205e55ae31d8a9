import WrCores.Clocked.Run
import WrCores.Fabric.Pkg

/-!
xwrf_reg.vhd, the register slice between a fabric source and a fabric sink. Its two processes make one step;
the stall it returns is the one it saw a cycle before. A record is what the source drives in a cycle, with a word or
without one.
-/

namespace WrCores.Fabric.Reg

open Clocked

/-- `t_reg_fsm`. -/
inductive RegFsm where
  | pass
  | stall
  | flush
  deriving DecidableEq, Repr

structure RegIn where
  snkI : SourceOut
  srcI : SourceIn
  deriving DecidableEq, Repr

structure RegState where
  state : RegFsm
  temp : SourceOut
  srcO : SourceOut
  snkO : SourceIn
  deriving DecidableEq, Repr

/-- `src_o` is `c_dummy_snk_in`, whose other fields are undefined, and nothing was stalled. -/
structure AfterReset (s : RegState) : Prop where
  state : s.state = .pass
  cyc : s.srcO.cyc = false
  stb : s.srcO.stb = false
  stall : s.snkO.stall = false

def step (s : RegState) (i : RegIn) : RegState :=
  match s.state with
  | .pass =>
      if i.srcI.stall then { s with temp := i.snkI, state := .stall, snkO := i.srcI }
      else { s with srcO := i.snkI, snkO := i.srcI }
  | .stall =>
      if i.srcI.stall then { s with snkO := i.srcI }
      else { s with srcO := s.temp, state := .flush, snkO := i.srcI }
  | .flush =>
      if i.srcI.stall then { s with temp := i.snkI, state := .stall, snkO := i.srcI }
      else { s with srcO := i.snkI, state := .pass, snkO := i.srcI }

/-- The records that are taken from upstream and by downstream in a cycle. -/
def upstream (s : RegState) (i : RegIn) : List SourceOut := if s.snkO.stall then [] else [i.snkI]

def downstream (s : RegState) (i : RegIn) : List SourceOut := if i.srcI.stall then [] else [s.srcO]

/-- The records that are on their way. -/
def held (s : RegState) : List SourceOut := if s.state = .stall then [s.srcO, s.temp] else [s.srcO]

/-- The words among the records, in the cycles of the fabric in which they are taken. -/
def words (records : List SourceOut) : List Word := records.flatMap fun r => taken r false

/-- Upstream is stalled exactly in the state that holds a second record. -/
def Agrees (s : RegState) : Prop := s.snkO.stall = decide (s.state = .stall)

theorem step_stall (s : RegState) (i : RegIn) : (step s i).snkO.stall = i.srcI.stall := by
  unfold step
  split <;> split <;> rfl

theorem step_agrees (s : RegState) (i : RegIn) : Agrees (step s i) := by
  rw [Agrees, step_stall]
  unfold step
  cases stalled : i.srcI.stall with
  | false => cases s.state <;> rfl
  | true => cases state : s.state <;> simp

theorem step_balanced (s : RegState) (i : RegIn) (agrees : Agrees s) :
    held s ++ upstream s i = downstream s i ++ held (step s i) := by
  rw [Agrees] at agrees
  cases state : s.state with
  | pass =>
      have free : s.snkO.stall = false := by simpa [state] using agrees
      cases stalled : i.srcI.stall <;> simp [held, upstream, downstream, step, state, stalled, free]
  | stall =>
      have full : s.snkO.stall = true := by simpa [state] using agrees
      cases stalled : i.srcI.stall <;> simp [held, upstream, downstream, step, state, stalled, full]
  | flush =>
      have free : s.snkO.stall = false := by simpa [state] using agrees
      cases stalled : i.srcI.stall <;> simp [held, upstream, downstream, step, state, stalled, free]

/-- What is on its way and what is taken from upstream is what downstream takes and what is then on its way. -/
theorem run_balanced (s : RegState) (cycles : List RegIn) (agrees : Agrees s) :
    held s ++ collect step upstream s cycles = collect step downstream s cycles ++ held (run step s cycles) := by
  have runs : Along step (fun _ _ => True) s cycles := along_of_forall (fun _ _ => trivial) s cycles
  exact runs.conserves Agrees held upstream downstream (fun s i _ _ => step_agrees s i)
    (fun s i agrees _ => step_balanced s i agrees) agrees

/-- Behind the record of the reset downstream takes the records that were taken from upstream, one and the
same in turn; at most two are on their way. -/
theorem slice_transparent (s : RegState) (reset : AfterReset s) (cycles : List RegIn) :
    s.srcO :: collect step upstream s cycles = collect step downstream s cycles ++ held (run step s cycles) ∧
      words (collect step upstream s cycles) =
        words (collect step downstream s cycles) ++ words (held (run step s cycles)) ∧
      (held (run step s cycles)).length ≤ 2 := by
  have agrees : Agrees s := by
    rw [Agrees, reset.stall, reset.state]
    rfl
  have alone : held s = [s.srcO] := by simp [held, reset.state]
  have balanced := run_balanced s cycles agrees
  rw [alone] at balanced
  refine ⟨balanced, ?_, ?_⟩
  · have empty : taken s.srcO false = [] := taken_of_not_stb _ _ reset.stb
    have same := congrArg words balanced
    simpa [words, empty] using same
  · unfold held
    split <;> simp

def resetState : RegState :=
  ⟨.pass, ⟨0, 0, true, true, true, 3⟩, ⟨0, 0, false, false, false, 0⟩, ⟨false, false, false, false⟩⟩

/-- Three words, the stall toggling from the first cycle on. -/
def toggling : List RegIn :=
  [⟨⟨0, 1, true, true, true, 3⟩, ⟨false, true, false, false⟩⟩,
   ⟨⟨0, 2, true, true, true, 3⟩, ⟨false, false, false, false⟩⟩,
   ⟨⟨0, 2, true, true, true, 3⟩, ⟨false, true, false, false⟩⟩,
   ⟨⟨0, 3, true, true, true, 3⟩, ⟨false, false, false, false⟩⟩,
   ⟨⟨0, 3, true, true, true, 3⟩, ⟨false, false, false, false⟩⟩]

theorem slice_transparent_toggling :
    (words (collect step upstream resetState toggling)).map (·.dat) = [1, 2, 3] ∧
    words (collect step upstream resetState toggling) =
      words (collect step downstream resetState toggling) ++ words (held (run step resetState toggling)) :=
  ⟨by decide, (slice_transparent resetState ⟨rfl, rfl, rfl, rfl⟩ toggling).2.1⟩

end WrCores.Fabric.Reg
