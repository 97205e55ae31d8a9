import Mathlib.Data.BitVec
import WrCores.Eca.Free
import WrCores.Heap.Serial

/-!
eca_rmw.vhd: a memory for read-modify-write operations with two ports, in two banks chosen by the lowest bit of the
address. An operation of one cycle shows its cell in the next one, and what its port gets then is written back.
-/

namespace WrCores.Eca.Rmw

open Clocked Heap

variable {n w : Nat}

/-- The inputs; `g_addr_bits` is `n + 1`. -/
structure In (n w : Nat) where
  aEn : Bool
  aAddr : BitVec (n + 1)
  aData : BitVec w
  bEn : Bool
  bAddr : BitVec (n + 1)
  bData : BitVec w
  deriving DecidableEq, Repr

structure State (n w : Nat) where
  q0 : Sdp n w
  q1 : Sdp n w
  q0Addr : BitVec (n + 1)
  q1Addr : BitVec (n + 1)
  q0Wen : Bool
  q1Wen : Bool
  mux : Bool
  aAck : Bool
  bAck : Bool

/-- The memories, the addresses and `r_mux` have no reset. -/
structure AfterReset (s : State n w) : Prop where
  aAck : s.aAck = false
  bAck : s.bAck = false
  q0Wen : s.q0Wen = false
  q1Wen : s.q1Wen = false

def low (addr : BitVec (n + 1)) : Bool := addr.getLsbD 0

/-- `addr(addr'high downto 1)`. -/
def high (addr : BitVec (n + 1)) : BitVec n := addr.extractLsb' 1 n

def aQ0 (i : In n w) : Bool := i.aEn && !low i.aAddr

def aQ1 (i : In n w) : Bool := i.aEn && low i.aAddr

def bQ0 (i : In n w) : Bool := i.bEn && !low i.bAddr

def bQ1 (i : In n w) : Bool := i.bEn && low i.bAddr

def sQ0Addr (i : In n w) : BitVec (n + 1) := if aQ0 i then i.aAddr else i.bAddr

def sQ1Addr (i : In n w) : BitVec (n + 1) := if aQ1 i then i.aAddr else i.bAddr

/-- `s_mux`: port A works on the second bank and port B on the first. -/
def sMux (i : In n w) : Bool := if i.aEn then low i.aAddr else !low i.bAddr

def cells (m0 m1 : BitVec n → BitVec w) (addr : BitVec (n + 1)) : BitVec w :=
  if low addr then m1 (high addr) else m0 (high addr)

namespace State

def aDataO (s : State n w) : BitVec w := if s.mux then s.q1.rData else s.q0.rData

def bDataO (s : State n w) : BitVec w := if s.mux then s.q0.rData else s.q1.rData

def sQ0Data (s : State n w) (i : In n w) : BitVec w := if s.mux then i.bData else i.aData

def sQ1Data (s : State n w) (i : In n w) : BitVec w := if s.mux then i.aData else i.bData

def step (s : State n w) (i : In n w) : State n w where
  q0 := s.q0.step (high (sQ0Addr i)) s.q0Wen (high s.q0Addr) (s.sQ0Data i)
  q1 := s.q1.step (high (sQ1Addr i)) s.q1Wen (high s.q1Addr) (s.sQ1Data i)
  q0Addr := sQ0Addr i
  q1Addr := sQ1Addr i
  q0Wen := aQ0 i || bQ0 i
  q1Wen := aQ1 i || bQ1 i
  mux := sMux i
  aAck := i.aEn
  bAck := i.bEn && (!i.aEn || (low i.aAddr ^^ low i.bAddr))

/-- The two banks as one memory. -/
def contents (s : State n w) : BitVec (n + 1) → BitVec w := cells s.q0.memory s.q1.memory

/-- The operations acknowledged in this cycle, with the addresses of the cycle before: port A comes first. -/
def operations (s : State n w) (last i : In n w) : List (Exchange (BitVec (n + 1)) (BitVec w)) :=
  (if s.aAck then [⟨last.aAddr, s.aDataO, i.aData⟩] else []) ++
    if s.bAck then [⟨last.bAddr, s.bDataO, i.bData⟩] else []

def history : State n w → In n w → List (In n w) → List (Exchange (BitVec (n + 1)) (BitVec w))
  | _, _, [] => []
  | s, last, i :: rest => s.operations last i ++ history (s.step i) i rest

/-- What the registers know of the requests of the cycle before. -/
structure Pending (s : State n w) (last : In n w) : Prop where
  readA : s.aAck = true → s.aDataO = s.contents last.aAddr
  readB : s.bAck = true → s.bDataO = s.contents last.bAddr
  apart : s.aAck = true → s.bAck = true → last.aAddr ≠ last.bAddr
  written : ∀ i, (s.step i).contents = replay s.contents (s.operations last i)

end State

theorem addr_ext {a b : BitVec (n + 1)} (lows : low a = low b) (highs : high a = high b) : a = b := by
  refine BitVec.eq_of_getLsbD_eq fun k inside => ?_
  cases k with
  | zero => exact lows
  | succ k =>
      have bits := congrArg (BitVec.getLsbD · k) highs
      simpa [high, Nat.add_comm 1 k, Nat.lt_of_succ_lt_succ inside] using bits

theorem cells_update0 (m0 m1 : BitVec n → BitVec w) {a : BitVec (n + 1)} (even : low a = false) (v : BitVec w) :
    cells (Function.update m0 (high a) v) m1 = Function.update (cells m0 m1) a v := by
  funext b
  by_cases same : b = a
  · subst same
    simp [cells, even]
  · rw [Function.update_of_ne same, cells, cells]
    cases lowB : low b with
    | true => rfl
    | false =>
        have other : high b ≠ high a := fun highs => same (addr_ext (lowB.trans even.symm) highs)
        simp [Function.update_of_ne other]

theorem cells_update1 (m0 m1 : BitVec n → BitVec w) {a : BitVec (n + 1)} (odd : low a = true) (v : BitVec w) :
    cells m0 (Function.update m1 (high a) v) = Function.update (cells m0 m1) a v := by
  funext b
  by_cases same : b = a
  · subst same
    simp [cells, odd]
  · rw [Function.update_of_ne same, cells, cells]
    cases lowB : low b with
    | true =>
        have other : high b ≠ high a := fun highs => same (addr_ext (lowB.trans odd.symm) highs)
        simp [Function.update_of_ne other]
    | false => rfl

namespace State

theorem step_contents (s : State n w) (i : In n w) :
    (s.step i).contents =
      cells (if s.q0Wen then Function.update s.q0.memory (high s.q0Addr) (s.sQ0Data i) else s.q0.memory)
        (if s.q1Wen then Function.update s.q1.memory (high s.q1Addr) (s.sQ1Data i) else s.q1.memory) := rfl

/-- The banks show the cells that the addresses of the last cycle name. -/
theorem rData_cells (bits : 0 < n) (s : State n w) (i : In n w) :
    (s.step i).q0.rData = (s.step i).q0.memory (high (sQ0Addr i)) ∧
      (s.step i).q1.rData = (s.step i).q1.memory (high (sQ1Addr i)) :=
  ⟨Sdp.rData_step bits .., Sdp.rData_step bits ..⟩

theorem reset_pending {s : State n w} (fresh : AfterReset s) (last : In n w) : Pending s last where
  readA acked := absurd (fresh.aAck.symm.trans acked) Bool.false_ne_true
  readB acked := absurd (fresh.bAck.symm.trans acked) Bool.false_ne_true
  apart acked := absurd (fresh.aAck.symm.trans acked) Bool.false_ne_true
  written i := by
    rw [step_contents, fresh.q0Wen, fresh.q1Wen, operations, fresh.aAck, fresh.bAck]
    rfl

/-- Where port A works, then where port B does. -/
theorem bank0_written (s : State n w) (i j : In n w) :
    ((s.step i).step j).q0.memory =
      if aQ0 i then Function.update (s.step i).q0.memory (high i.aAddr) j.aData
      else if bQ0 i then Function.update (s.step i).q0.memory (high i.bAddr) j.bData
      else (s.step i).q0.memory := by
  have memory : ((s.step i).step j).q0.memory =
      if aQ0 i || bQ0 i then
        Function.update (s.step i).q0.memory (high (sQ0Addr i)) (if sMux i then j.bData else j.aData)
      else (s.step i).q0.memory := rfl
  rw [memory]
  cases a : aQ0 i with
  | true =>
      have even : i.aEn = true ∧ low i.aAddr = false := by simpa [aQ0] using a
      simp [sQ0Addr, sMux, a, even]
  | false =>
      cases b : bQ0 i with
      | true =>
          have even : i.bEn = true ∧ low i.bAddr = false := by simpa [bQ0] using b
          have crossed : sMux i = true := by
            cases en : i.aEn with
            | true => simpa [sMux, aQ0, en] using a
            | false => simp [sMux, en, even]
          simp [sQ0Addr, crossed, a]
      | false => rfl

theorem bank1_written (s : State n w) (i j : In n w) :
    ((s.step i).step j).q1.memory =
      if aQ1 i then Function.update (s.step i).q1.memory (high i.aAddr) j.aData
      else if bQ1 i then Function.update (s.step i).q1.memory (high i.bAddr) j.bData
      else (s.step i).q1.memory := by
  have memory : ((s.step i).step j).q1.memory =
      if aQ1 i || bQ1 i then
        Function.update (s.step i).q1.memory (high (sQ1Addr i)) (if sMux i then j.aData else j.bData)
      else (s.step i).q1.memory := rfl
  rw [memory]
  cases a : aQ1 i with
  | true =>
      have odd : i.aEn = true ∧ low i.aAddr = true := by simpa [aQ1] using a
      simp [sQ1Addr, sMux, a, odd]
  | false =>
      cases b : bQ1 i with
      | true =>
          have odd : i.bEn = true ∧ low i.bAddr = true := by simpa [bQ1] using b
          have straight : sMux i = false := by
            cases en : i.aEn with
            | true => simpa [sMux, aQ1, en] using a
            | false => simp [sMux, en, odd]
          simp [sQ1Addr, straight, a]
      | false => rfl

/-- The operations of one cycle change their own cells in the next, and nothing else does. -/
theorem step_written (s : State n w) (i j : In n w) :
    ((s.step i).step j).contents = replay (s.step i).contents ((s.step i).operations i j) := by
  have ackA : (s.step i).aAck = i.aEn := rfl
  have ackB : (s.step i).bAck = (i.bEn && (!i.aEn || (low i.aAddr ^^ low i.bAddr))) := rfl
  rw [contents, bank0_written, bank1_written, operations, ackA, ackB]
  cases enA : i.aEn with
  | false =>
      cases enB : i.bEn <;> cases lowB : low i.bAddr <;>
        simp [aQ0, aQ1, bQ0, bQ1, replay, contents, enA, enB, lowB, cells_update0, cells_update1]
  | true =>
      cases enB : i.bEn with
      | false =>
          cases lowA : low i.aAddr <;>
            simp [aQ0, aQ1, bQ0, bQ1, replay, contents, enA, enB, lowA, cells_update0, cells_update1]
      | true =>
          cases lowA : low i.aAddr with
          | false =>
              cases lowB : low i.bAddr <;>
                simp [aQ0, aQ1, bQ1, replay, contents, enA, enB, lowA, lowB, cells_update0, cells_update1]
          | true =>
              cases lowB : low i.bAddr with
              | true => simp [aQ0, aQ1, bQ0, replay, contents, enA, enB, lowA, lowB, cells_update1]
              | false =>
                  have apart : i.bAddr ≠ i.aAddr := by
                    intro same
                    rw [same, lowA] at lowB
                    exact Bool.false_ne_true lowB.symm
                  simpa [aQ0, aQ1, bQ0, bQ1, replay, contents, enA, enB, lowA, lowB, cells_update0, cells_update1]
                    using Function.update_comm apart j.bData j.aData (s.step i).contents

theorem step_pending (bits : 0 < n) (s : State n w) (i : In n w) : Pending (s.step i) i := by
  obtain ⟨bank0, bank1⟩ := s.rData_cells bits i
  have muxed : (s.step i).mux = sMux i := rfl
  constructor
  · intro acked
    have enabled : i.aEn = true := acked
    rw [aDataO, bank0, bank1, muxed, contents, cells]
    cases lowA : low i.aAddr <;> simp [sMux, sQ0Addr, sQ1Addr, aQ0, aQ1, enabled, lowA]
  · intro acked
    have granted : i.bEn = true ∧ (i.aEn = false ∨ (low i.aAddr ^^ low i.bAddr) = true) := by
      simpa [step] using acked
    obtain ⟨enabled, free⟩ := granted
    rw [bDataO, bank0, bank1, muxed, contents, cells]
    cases lowB : low i.bAddr with
    | false =>
        rcases free with idle | crossed
        · simp [sMux, sQ0Addr, aQ0, idle, lowB]
        · have lowA : low i.aAddr = true := by simpa [lowB] using crossed
          cases enA : i.aEn <;> simp [sMux, sQ0Addr, aQ0, enA, lowA, lowB]
    | true =>
        rcases free with idle | crossed
        · simp [sMux, sQ1Addr, aQ1, idle, lowB]
        · have lowA : low i.aAddr = false := by simpa [lowB] using crossed
          cases enA : i.aEn <;> simp [sMux, sQ1Addr, aQ1, enA, lowA, lowB]
  · intro ackedA ackedB same
    have enabled : i.aEn = true := ackedA
    have crossed : (low i.aAddr ^^ low i.bAddr) = true := by
      have granted : (i.bEn && (!i.aEn || (low i.aAddr ^^ low i.bAddr))) = true := ackedB
      simp only [enabled, Bool.not_true, Bool.false_or, Bool.and_eq_true] at granted
      exact granted.2
    rw [same, Bool.xor_self] at crossed
    exact absurd crossed Bool.false_ne_true
  · exact s.step_written i

theorem history_serial (bits : 0 < n) {s : State n w} {last : In n w} (pending : Pending s last)
    (inputs : List (In n w)) :
    Serial s.contents (s.history last inputs) ∧
      (run step s inputs).contents = replay s.contents (s.history last inputs) := by
  induction inputs generalizing s last with
  | nil => exact ⟨trivial, rfl⟩
  | cons i rest ih =>
      obtain ⟨serial, contents⟩ := ih (s.step_pending bits i)
      rw [pending.written i] at serial contents
      rw [history, serial_append, replay_append, run_cons]
      refine ⟨⟨?_, serial⟩, contents⟩
      rw [operations]
      cases ackA : s.aAck with
      | false =>
          cases ackB : s.bAck with
          | false => trivial
          | true => exact ⟨pending.readB ackB, trivial⟩
      | true =>
          cases ackB : s.bAck with
          | false => exact ⟨pending.readA ackA, trivial⟩
          | true =>
              exact serial_pair (pending.apart ackA ackB) (pending.readA ackA) (pending.readB ackB)

/-- The acknowledged operations follow one another, port A first in a cycle, and only they change the memory. Port A
is always served; port B is refused where port A works in the same bank, so one of two cycles in which port A
changes the bank is its own. -/
structure Atomic (s : State n w) (last : In n w) (inputs : List (In n w)) : Prop where
  serial : Serial s.contents (s.history last inputs)
  contents : (run step s inputs).contents = replay s.contents (s.history last inputs)
  ackA : ∀ i, (run step s (inputs ++ [i])).aAck = i.aEn
  ackB : ∀ i, (run step s (inputs ++ [i])).bAck = true ↔
    i.bEn = true ∧ ¬(i.aEn = true ∧ low i.aAddr = low i.bAddr)
  turn : ∀ i j, i.aEn = true → j.aEn = true → low i.aAddr ≠ low j.aAddr → i.bEn = true → j.bEn = true →
    i.bAddr = j.bAddr → (run step s (inputs ++ [i])).bAck ≠ (run step s (inputs ++ [i, j])).bAck

theorem atomic_of_serial {s : State n w} {last : In n w} {inputs : List (In n w)}
    (both : Serial s.contents (s.history last inputs) ∧
      (run step s inputs).contents = replay s.contents (s.history last inputs)) : Atomic s last inputs := by
  have ack : ∀ (inputs : List (In n w)) i, (run step s (inputs ++ [i])).bAck =
      (i.bEn && (!i.aEn || (low i.aAddr ^^ low i.bAddr))) := by
    intro inputs i
    rw [run_append]
    rfl
  refine ⟨both.1, both.2, fun i => ?_, fun i => ?_, ?_⟩
  · rw [run_append]
    rfl
  · rw [ack]
    cases i.aEn <;> simp
  · intro i j enA enA' alternate enB enB' held
    have two : inputs ++ [i, j] = (inputs ++ [i]) ++ [j] := by simp
    have other : low j.aAddr = !low i.aAddr := Bool.eq_not_of_ne (Ne.symm alternate)
    rw [two, ack, ack, enA, enA', enB, enB', held, other]
    cases low i.aAddr <;> cases low j.bAddr <;> decide

theorem serial_trivial {Address : Type} [DecidableEq Address] (memory : Address → BitVec 0)
    (ops : List (Exchange Address (BitVec 0))) : Serial memory ops := by
  induction ops generalizing memory with
  | nil => trivial
  | cons op rest ih => exact ⟨Subsingleton.elim _ _, ih _⟩

end State

def blank (n w : Nat) : State n w where
  q0 := ⟨fun _ => 0, 0, false, 0⟩
  q1 := ⟨fun _ => 0, 0, false, 0⟩
  q0Addr := 0
  q1Addr := 0
  q0Wen := false
  q1Wen := false
  mux := false
  aAck := false
  bAck := false

theorem blank_reset (n w : Nat) : AfterReset (blank n w) := ⟨rfl, rfl, rfl, rfl⟩

/-- Port A works on the same cell in two cycles, and leaves a one there at first. -/
def twice (n w : Nat) : List (In n w) :=
  [⟨true, 0, 0, false, 0, 0⟩, ⟨true, 0, 1, false, 0, 0⟩, ⟨false, 0, 0, false, 0, 0⟩]

/-- With one address bit the banks are one cell each, whose address is never equal to itself: the second operation
reads what was there before the first. -/
theorem twice_history (w : Nat) :
    (blank 0 w).history ⟨false, 0, 0, false, 0, 0⟩ (twice 0 w) = [⟨0, 0, 1⟩, ⟨0, 0, 0⟩] := by
  simp [twice, blank, State.history, State.operations, State.step, State.aDataO, Sdp.step, Sdp.rData, fEcaEq_eq, sMux,
    sQ0Addr, aQ0, bQ0]

/-- The memory is atomic for two address bits and more. -/
theorem exchanges_serial (n w : Nat) :
    (∀ s : State n w, AfterReset s → ∀ last inputs, State.Atomic s last inputs) ↔ (0 < n ∨ w = 0) := by
  constructor
  · intro atomic
    by_contra neither
    obtain ⟨rfl, data⟩ : n = 0 ∧ w ≠ 0 := by omega
    have serial := (atomic (blank 0 w) (blank_reset 0 w) ⟨false, 0, 0, false, 0, 0⟩ (twice 0 w)).serial
    rw [twice_history] at serial
    have stale : (0 : BitVec w) = 1 := by simpa using serial.2.1
    have values := congrArg BitVec.toNat stale
    have one : BitVec.toNat (1 : BitVec w) = 1 := BitVec.toNat_one (by omega)
    rw [one] at values
    exact absurd values (by simp)
  · rintro wide s fresh last inputs
    apply State.atomic_of_serial
    rcases wide with bits | rfl
    · exact State.history_serial bits (State.reset_pending fresh last) inputs
    · exact ⟨State.serial_trivial _ _, Subsingleton.elim _ _⟩

/-- Both ports on address 1: port B is refused at first, and then reads what port A has written. -/
example : (blank 1 8).history ⟨false, 0, 0, false, 0, 0⟩
    [⟨true, 1, 0, true, 1, 0⟩, ⟨true, 2, 5, true, 1, 0⟩, ⟨false, 0, 6, false, 0, 3⟩, ⟨true, 1, 0, false, 0, 0⟩,
      ⟨false, 0, 0, false, 0, 0⟩] = [⟨1, 0, 5⟩, ⟨2, 0, 6⟩, ⟨1, 5, 3⟩, ⟨1, 3, 0⟩] := by decide

/-- Two bytes: the 1 that the first operation left is not what the second reads. -/
theorem exchanges_not_serial :
    (blank 0 8).history ⟨false, 0, 0, false, 0, 0⟩ (twice 0 8) = [⟨0, 0, 1⟩, ⟨0, 0, 0⟩] ∧
      ¬State.Atomic (blank 0 8) ⟨false, 0, 0, false, 0, 0⟩ (twice 0 8) := by
  refine ⟨rfl, fun atomic => ?_⟩
  have serial := atomic.serial
  rw [twice_history] at serial
  exact absurd serial.2.1 (by decide)

end WrCores.Eca.Rmw
