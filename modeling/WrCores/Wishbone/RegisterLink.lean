import Mathlib.Order.Nat
import WrCores.Wishbone.Crossbar

/-!
xwb_register_link.vhd and the wb_skidpad.vhd inside, which holds up to two requests. The link is in a bus like a wire
with registers: requests wait in it for a slave that stalls, answers are one edge late. `rty` and `int` are not driven.
The reset is left out; the buffers have none.
-/

namespace WrCores.Wishbone

open Clocked

/-- What the two buffers hold. -/
structure Skidpad (α : Type) where
  rFull0 : Bool
  rFull1 : Bool
  rBuff0 : α
  rBuff1 : α

namespace Skidpad

variable {α : Type}

def valid (s : Skidpad α) : Bool := s.rFull1 || s.rFull0

def full (s : Skidpad α) : Bool := s.rFull1 && s.rFull0

def mux (s : Skidpad α) : α := if s.rFull1 then s.rBuff1 else s.rBuff0

def step (s : Skidpad α) (push pop : Bool) (data : α) : Skidpad α where
  rFull0 := push || s.full
  rFull1 := !pop && s.valid
  rBuff0 := if s.full then s.rBuff0 else data
  rBuff1 := if s.rFull1 then s.rBuff1 else s.rBuff0

/-- The oldest first. -/
def held (s : Skidpad α) : List α := (if s.rFull1 then [s.rBuff1] else []) ++ if s.rFull0 then [s.rBuff0] else []

theorem held_cases (s : Skidpad α) : (s.valid = false ∧ s.full = false ∧ s.held = []) ∨
    (s.valid = true ∧ s.full = false ∧ s.held = [s.mux]) ∨
      ∃ d, s.valid = true ∧ s.full = true ∧ s.held = [s.mux, d] := by
  obtain ⟨full0, full1, buff0, buff1⟩ := s
  cases full0 <;> cases full1 <;> simp [valid, full, held, mux]

/-- A queue: what is taken comes from the front, what is pushed goes to the end. -/
theorem held_step (s : Skidpad α) (push pop : Bool) (data : α) (room : push = true → s.full = false) :
    s.held ++ (if push then [data] else []) =
      (if s.valid && pop then [s.mux] else []) ++ (s.step push pop data).held := by
  obtain ⟨full0, full1, buff0, buff1⟩ := s
  cases full0 <;> cases full1 <;> cases push <;> cases pop <;> simp_all [valid, full, held, mux, step]

end Skidpad

/-- What a request carries. -/
structure Request where
  adr : BitVec 32
  dat : BitVec 32
  sel : BitVec 4
  we : Bool
  deriving DecidableEq

structure Answer where
  ack : Bool
  err : Bool
  dat : BitVec 32
  deriving DecidableEq

structure RegisterLink where
  sp : Skidpad Request
  /-- `r_ack`, `r_err` and `r_dat`. -/
  r : Answer

namespace RegisterLink

structure In where
  slaveI : MasterOut
  masterI : SlaveOut

def request (out : MasterOut) : Request := ⟨out.adr, out.dat, out.sel, out.we⟩

def In.answer (i : In) : Answer := ⟨i.masterI.ack, i.masterI.err, i.masterI.dat⟩

def sPush (s : RegisterLink) (i : In) : Bool := i.slaveI.cyc && i.slaveI.stb && !s.sp.full

def sPop (i : In) : Bool := !i.masterI.stall

def stall (s : RegisterLink) : Bool := s.sp.full

def masterO (s : RegisterLink) (i : In) : MasterOut :=
  ⟨i.slaveI.cyc, s.sp.valid, s.sp.mux.adr, s.sp.mux.sel, s.sp.mux.we, s.sp.mux.dat⟩

def step (s : RegisterLink) (i : In) : RegisterLink where
  sp := s.sp.step (s.sPush i) (sPop i) (request i.slaveI)
  r := i.answer

def reset (buff0 buff1 : Request) : RegisterLink := ⟨⟨false, false, buff0, buff1⟩, ⟨false, false, 0⟩⟩

/-- The request that the master hands over. -/
def accepted (s : RegisterLink) (i : In) : List Request := if s.sPush i then [request i.slaveI] else []

/-- The request that the slave can take, with the cycle or without it. -/
def offered (s : RegisterLink) (i : In) : List Request :=
  if (s.masterO i).stb && !i.masterI.stall then [request (s.masterO i)] else []

/-- The request that the slave takes. -/
def taken (s : RegisterLink) (i : In) : List Request := if (s.masterO i).cyc then s.offered i else []

variable (s : RegisterLink) (i : In) (inputs : List In)

theorem held_step : s.sp.held ++ s.accepted i = s.offered i ++ (s.step i).sp.held :=
  s.sp.held_step (s.sPush i) (sPop i) (request i.slaveI) fun push => by
    rw [sPush, Bool.and_eq_true, Bool.not_eq_true'] at push
    exact push.2

theorem held_run : s.sp.held ++ collect step accepted s inputs =
    collect step offered s inputs ++ (run step s inputs).sp.held := by
  induction inputs generalizing s with
  | nil => simp [collect_nil]
  | cons i rest ih =>
      rw [collect_cons, collect_cons, ← List.append_assoc, held_step, List.append_assoc, ih, run_cons,
        List.append_assoc]

/-- What the master has handed over has been offered in the same order, up to two requests that are still in the
link. The link stalls only with two of them, and after an edge only if the slave has stalled; the oldest is what it
shows. Answers come one edge late. -/
theorem requests_in_order (buff0 buff1 : Request) (inputs : List In) (i : In) :
    let s := run step (reset buff0 buff1) inputs
    collect step accepted (reset buff0 buff1) inputs =
        collect step offered (reset buff0 buff1) inputs ++ s.sp.held ∧
      s.sp.held.length ≤ 2 ∧ (s.stall = true ↔ s.sp.held.length = 2) ∧
      ((s.masterO i).stb = true ↔ s.sp.held ≠ []) ∧
      (∀ x, s.sp.held.head? = some x → request (s.masterO i) = x) ∧
      ((s.step i).stall = true → i.masterI.stall = true) ∧
      (s.step i).r = i.answer := by
  intro s
  refine ⟨held_run (reset buff0 buff1) inputs, ?_, ?_, ?_, ?_, fun stalls => ?_, rfl⟩
  · rcases s.sp.held_cases with ⟨-, -, held⟩ | ⟨-, -, held⟩ | ⟨d, -, -, held⟩ <;> simp [held]
  · rcases s.sp.held_cases with ⟨-, full, held⟩ | ⟨-, full, held⟩ | ⟨d, -, full, held⟩ <;> simp [stall, full, held]
  · rcases s.sp.held_cases with ⟨valid, -, held⟩ | ⟨valid, -, held⟩ | ⟨d, valid, -, held⟩ <;>
      simp [masterO, valid, held]
  · intro x oldest
    rcases s.sp.held_cases with ⟨-, -, held⟩ | ⟨-, -, held⟩ | ⟨d, -, -, held⟩ <;> rw [held] at oldest
    · cases oldest
    · exact Option.some.inj oldest
    · exact Option.some.inj oldest
  · simp only [stall, step, Skidpad.step, Skidpad.full, sPop, Bool.and_eq_true, Bool.not_not] at stalls
    exact stalls.1.1

/-! ### The cycle -/

def shown (s : RegisterLink) : List Answer := if s.r.ack || s.r.err then [s.r] else []

/-- The answer that the master hears. -/
def heard (s : RegisterLink) (_ : In) : List Answer := s.shown

/-- The answer that the slave gives. -/
def given (_ : RegisterLink) (i : In) : List Answer := if i.masterI.ack || i.masterI.err then [i.answer] else []

section Cycle

variable (buff0 buff1 : Request) (inputs : Nat → In)

/-- What has been seen at the edges before `t`. -/
def before {α : Type} (seen : RegisterLink → In → List α) (t : Nat) : List α :=
  collect step seen (reset buff0 buff1) (upTo inputs t)

theorem before_succ {α : Type} (seen : RegisterLink → In → List α) (t : Nat) :
    before buff0 buff1 inputs seen (t + 1) = before buff0 buff1 inputs seen t ++
      seen (run step (reset buff0 buff1) (upTo inputs t)) (inputs t) := by
  rw [before, upTo_snoc, collect_append, collect_cons, collect_nil, List.append_nil]
  rfl

theorem heard_succ (t : Nat) : before buff0 buff1 inputs heard (t + 1) = before buff0 buff1 inputs given t := by
  rw [before, upTo_snoc]
  exact collect_registered step shown (reset buff0 buff1) (upTo inputs t) (inputs t)

theorem heard_le (t : Nat) :
    (before buff0 buff1 inputs heard t).length ≤ (before buff0 buff1 inputs given t).length := by
  cases t with
  | zero => exact Nat.le_refl _
  | succ t =>
      rw [heard_succ, before_succ, List.length_append]
      exact Nat.le_add_right _ _

/-- If the master keeps the cycle until it has heard all answers, and the slave answers what it has taken, the slave
takes all requests in order: none is dropped when the cycle ends. The answers are heard in the order they are given. -/
theorem cycle_covers (patient : ∀ t, (before buff0 buff1 inputs heard t).length <
      (before buff0 buff1 inputs accepted t).length → (inputs t).slaveI.cyc = true)
    (honest : ∀ t, (before buff0 buff1 inputs given t).length ≤ (before buff0 buff1 inputs taken t).length) (t : Nat) :
    before buff0 buff1 inputs accepted t = before buff0 buff1 inputs taken t ++
        (run step (reset buff0 buff1) (upTo inputs t)).sp.held ∧
      before buff0 buff1 inputs heard (t + 1) = before buff0 buff1 inputs given t := by
  have all : ∀ t, before buff0 buff1 inputs accepted t = before buff0 buff1 inputs offered t ++
      (run step (reset buff0 buff1) (upTo inputs t)).sp.held := fun t => held_run (reset buff0 buff1) (upTo inputs t)
  have same : ∀ t, before buff0 buff1 inputs taken t = before buff0 buff1 inputs offered t := by
    intro t
    induction t with
    | zero => rfl
    | succ t ih =>
        rw [before_succ, before_succ, ih, taken]
        split
        · rfl
        next ended =>
          -- nothing waits when the cycle has ended
          have none : (run step (reset buff0 buff1) (upTo inputs t)).sp.held = [] := by
            by_contra waits
            have positive := List.length_pos_iff.mpr waits
            have few := honest t
            have later := heard_le buff0 buff1 inputs t
            have sum := congrArg List.length (all t)
            rw [List.length_append] at sum
            rw [ih] at few
            exact ended (patient t (by omega))
          rcases (run step (reset buff0 buff1) (upTo inputs t)).sp.held_cases with
            ⟨valid, -⟩ | ⟨-, -, held⟩ | ⟨d, -, -, held⟩
          · simp [offered, masterO, valid]
          · rw [held] at none
            cases none
          · rw [held] at none
            cases none
  exact ⟨by rw [same, all], heard_succ buff0 buff1 inputs t⟩

end Cycle

/-- A write that the slave stalls for one edge, and its answer. -/
def writeInputs (t : Nat) : In where
  slaveI := ⟨true, t == 0, 0x20, 0xF, true, 7⟩
  masterI := ⟨t == 3, false, false, t == 1, false, 0⟩

theorem write_honest (t : Nat) : (before ⟨0, 0, 0, false⟩ ⟨0, 0, 0, false⟩ writeInputs given t).length ≤
    (before ⟨0, 0, 0, false⟩ ⟨0, 0, 0, false⟩ writeInputs taken t).length := by
  have late : ∀ t, (before ⟨0, 0, 0, false⟩ ⟨0, 0, 0, false⟩ writeInputs given (t + 4)).length = 1 ∧
      1 ≤ (before ⟨0, 0, 0, false⟩ ⟨0, 0, 0, false⟩ writeInputs taken (t + 4)).length := by
    intro t
    induction t with
    | zero => decide
    | succ t ih =>
        have silent : ∀ s, given s (writeInputs (t + 4)) = [] := fun s => by simp [given, writeInputs]
        rw [show t + 1 + 4 = t + 4 + 1 by omega, before_succ, before_succ (t := t + 4), silent, List.append_nil,
          List.length_append]
        exact ⟨ih.1, Nat.le_add_right_of_le ih.2⟩
  match t with
  | 0 | 1 | 2 | 3 => decide
  | t + 4 => exact (late t).1 ▸ (late t).2

theorem cycle_covers_write : before ⟨0, 0, 0, false⟩ ⟨0, 0, 0, false⟩ writeInputs accepted 4 =
    before ⟨0, 0, 0, false⟩ ⟨0, 0, 0, false⟩ writeInputs taken 4 ++
      (run step (reset ⟨0, 0, 0, false⟩ ⟨0, 0, 0, false⟩) (upTo writeInputs 4)).sp.held :=
  (cycle_covers ⟨0, 0, 0, false⟩ ⟨0, 0, 0, false⟩ writeInputs (fun _ _ => rfl) write_honest 4).1

end RegisterLink

end WrCores.Wishbone
