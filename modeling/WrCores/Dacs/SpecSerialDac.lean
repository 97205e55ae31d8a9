import Mathlib.Tactic

/-!
The serialiser spec_serial_dac.vhd and one transfer of it. While `sendingData` is 1 a chip select is low; the serial
clock `iDacClk` starts high, and a high and a low half make one place of the one-hot `bitCounter`.
-/

namespace WrCores.Dacs.SerialDac

/-- `dataBits` are g_num_data_bits, `extra` g_num_extra_bits and `sel` g_num_cs_select. -/
structure State (dataBits extra sel : Nat) where
  sendingData : Bool
  divider : BitVec 12
  iDacClk : Bool
  dataSh : BitVec (extra + dataBits)
  bitCounter : BitVec (extra + dataBits + 2)
  csSelReg : BitVec sel
  deriving DecidableEq, Repr

structure In (dataBits sel : Nat) where
  valueI : BitVec dataBits
  csSelI : BitVec sel
  loadI : Bool
  sclkDivselI : BitVec 3
  deriving DecidableEq, Repr

variable {dataBits extra sel : Nat}

/-- The divider, the bit counter and the chip select have no reset. -/
structure AfterReset (s : State dataBits extra sel) : Prop where
  sendingData : s.sendingData = false
  iDacClk : s.iDacClk = true
  dataSh : s.dataSh = 0#_

namespace State

variable (s : State dataBits extra sel) (i : In dataBits sel)

/-- `divider(1)` for 000 and so on to `divider(8)` for 111. -/
def dividerMuxed (sclkDivselI : BitVec 3) : Bool := s.divider.getLsbD (sclkDivselI.toNat + 1)

def endSendingData : Bool := s.bitCounter.getLsbD (extra + dataBits + 1)

def nextSendingData : Bool :=
  if i.loadI && !s.sendingData then true else if s.endSendingData then false else s.sendingData

def nextDivider : BitVec 12 :=
  if i.loadI then 0#12
  else if s.sendingData then (if s.dividerMuxed i.sclkDivselI then 0#12 else s.divider + 1#12)
  else if s.endSendingData then 0#12
  else s.divider

def nextDacClk : Bool :=
  if i.loadI then true
  else if s.dividerMuxed i.sclkDivselI then !s.iDacClk
  else if s.endSendingData then true
  else s.iDacClk

def nextDataSh : BitVec (extra + dataBits) :=
  if i.loadI && !s.sendingData then BitVec.ofNat extra 0 ++ i.valueI
  else if s.sendingData && s.dividerMuxed i.sclkDivselI && !s.iDacClk then s.dataSh.rotateLeft 1
  else s.dataSh

def nextBitCounter : BitVec (extra + dataBits + 2) :=
  if i.loadI && !s.sendingData then 1#_
  else if s.sendingData && s.divider == 0#12 && s.iDacClk then s.bitCounter <<< 1
  else s.bitCounter

def step : State dataBits extra sel where
  sendingData := s.nextSendingData i
  divider := s.nextDivider i
  iDacClk := s.nextDacClk i
  dataSh := s.nextDataSh i
  bitCounter := s.nextBitCounter i
  csSelReg := if i.loadI && !s.sendingData then i.csSelI else s.csSelReg

def dacCsN : BitVec sel := if s.sendingData then ~~~s.csSelReg else BitVec.allOnes sel

def dacSdata : Bool := s.dataSh.msb

end State

/-- `dataSh` has been moved on by `j` places. -/
def Moved (frame : BitVec (extra + dataBits)) (j : Nat) (s : State dataBits extra sel) : Prop :=
  ∀ k, k + j < extra + dataBits → s.dataSh.getMsbD k = frame.getMsbD (k + j)

/-- `j` falling edges of the clock have been made, and the divider is at `t` of its half period. -/
structure Sending (divsel : BitVec 3) (frame : BitVec (extra + dataBits)) (j t : Nat) (s : State dataBits extra sel) :
    Prop where
  sending : s.sendingData = true
  divider : s.divider = BitVec.ofNat 12 t
  half : t ≤ 2 ^ (divsel.toNat + 1)
  high : s.iDacClk = true → Moved frame j s ∧ s.bitCounter = 1#_ <<< (j + min t 1) ∧
    (j < extra + dataBits ∨ j = extra + dataBits ∧ t ≤ 1)
  low : s.iDacClk = false → ∃ k, j = k + 1 ∧ k < extra + dataBits ∧ Moved frame k s ∧ s.bitCounter = 1#_ <<< j

section Sending

variable {divsel : BitVec 3} {frame : BitVec (extra + dataBits)} {j t : Nat} {s : State dataBits extra sel}
  {i : In dataBits sel}

theorem muxed_iff (sending : Sending divsel frame j t s) :
    s.dividerMuxed divsel = decide (t = 2 ^ (divsel.toNat + 1)) := by
  have half := sending.half
  have small : divsel.toNat + 1 < 12 := by have := divsel.isLt; omega
  rw [State.dividerMuxed, sending.divider, BitVec.getLsbD_ofNat]
  rcases Nat.lt_or_eq_of_le half with less | same
  · simp [Nat.testBit_lt_two_pow less, less.ne]
  · simp [same, small]

theorem end_iff {p : Nat} (here : s.bitCounter = 1#_ <<< p) (inside : p ≤ extra + dataBits + 1) :
    s.endSendingData = decide (p = extra + dataBits + 1) := by
  rw [State.endSendingData, here, BitVec.getLsbD_shiftLeft, BitVec.getLsbD_one]
  rcases Nat.lt_or_eq_of_le inside with less | rfl
  · simp [less.ne, Nat.sub_ne_zero_of_lt less]
  · simp

theorem load_sending (load : i.loadI = true) (idle : s.sendingData = false) (some : 0 < extra + dataBits) :
    Sending divsel (BitVec.ofNat extra 0 ++ i.valueI) 0 0 (s.step i) where
  sending := by simp [State.step, State.nextSendingData, load, idle]
  divider := by simp [State.step, State.nextDivider, load]
  half := Nat.zero_le _
  high := fun _ => ⟨fun k _ => by simp [State.step, State.nextDataSh, load, idle],
    by simp [State.step, State.nextBitCounter, load, idle], .inl some⟩
  low := by simp [State.step, State.nextDacClk, load]

theorem moved_next {k : Nat} (moved : Moved frame k s) (shifts : (s.step i).dataSh = s.dataSh.rotateLeft 1) :
    Moved frame (k + 1) (s.step i) := by
  intro place inside
  rw [shifts, BitVec.getMsbD_rotateLeft, Nat.mod_eq_of_lt (by omega), decide_eq_true (by omega), Bool.true_and,
    Nat.add_comm 1 place, moved (place + 1) (by omega), Nat.add_right_comm, Nat.add_assoc]

theorem moved_same {k : Nat} (moved : Moved frame k s) (stays : (s.step i).dataSh = s.dataSh) :
    Moved frame k (s.step i) := fun place inside => by rw [stays, moved place inside]

/-- The divider does not wrap: half a period of the serial clock is from 3 to 257 cycles long. -/
theorem half_bounds (divsel : BitVec 3) : 2 ≤ 2 ^ (divsel.toNat + 1) ∧ 2 ^ (divsel.toNat + 1) < 2 ^ 12 := by
  have three := divsel.isLt
  refine ⟨?_, Nat.pow_lt_pow_right (by decide) (by omega)⟩
  calc 2 = 2 ^ 1 := rfl
    _ ≤ 2 ^ (divsel.toNat + 1) := Nat.pow_le_pow_right (by decide) (by omega)

theorem divider_zero_iff (sending : Sending divsel frame j t s) : (s.divider == 0#12) = decide (t = 0) := by
  have half := sending.half
  have bounds := half_bounds divsel
  rw [sending.divider, Bool.eq_iff_iff, beq_iff_eq, ← BitVec.toNat_inj, BitVec.toNat_ofNat, decide_eq_true_iff,
    Nat.mod_eq_of_lt (by omega)]
  rfl

section Edge

variable (quiet : i.loadI = false) (same : i.sclkDivselI = divsel)

include quiet same

/-- In the high half, before its last cycle. -/
theorem high_step (sending : Sending divsel frame j t s) (high : s.iDacClk = true)
    (inside : t ≠ 2 ^ (divsel.toNat + 1)) :
    (s.step i).iDacClk = true ∧
      (Sending divsel frame j (t + 1) (s.step i) ∨ j = extra + dataBits ∧ (s.step i).sendingData = false) := by
  obtain ⟨moved, counter, room⟩ := sending.high high
  have half := sending.half
  have muxed : s.dividerMuxed i.sclkDivselI = false := by rw [same, muxed_iff sending]; simpa using inside
  have ends := end_iff counter (by omega)
  have clk : (s.step i).iDacClk = true := by simp [State.step, State.nextDacClk, quiet, muxed, high]
  refine ⟨clk, ?_⟩
  by_cases last : j + min t 1 = extra + dataBits + 1
  · refine .inr ⟨by omega, ?_⟩
    simp [State.step, State.nextSendingData, quiet, ends, last]
  · refine .inl ⟨?_, ?_, by omega, fun _ => ⟨?_, ?_, by omega⟩, by simp [clk]⟩
    · simp [State.step, State.nextSendingData, quiet, ends, last, sending.sending]
    · simp [State.step, State.nextDivider, quiet, sending.sending, muxed, sending.divider, BitVec.ofNat_add]
    · exact moved_same moved (by simp [State.step, State.nextDataSh, quiet, muxed])
    · have zero := divider_zero_iff sending
      cases t with
      | zero =>
          simp [State.step, State.nextBitCounter, quiet, sending.sending, zero, high, counter, BitVec.shiftLeft_add]
      | succ t => simp [State.step, State.nextBitCounter, quiet, sending.sending, zero, counter]

/-- The last cycle of the high half. -/
theorem fall_step (sending : Sending divsel frame j t s) (high : s.iDacClk = true)
    (full : t = 2 ^ (divsel.toNat + 1)) :
    (s.step i).iDacClk = false ∧ j < extra + dataBits ∧ s.dacSdata = frame.getMsbD j ∧
      Sending divsel frame (j + 1) 0 (s.step i) := by
  obtain ⟨moved, counter, room⟩ := sending.high high
  have two := (half_bounds divsel).1
  have inside : j < extra + dataBits := by omega
  have one : min t 1 = 1 := by omega
  rw [one] at counter
  have muxed : s.dividerMuxed i.sclkDivselI = true := by rw [same, muxed_iff sending]; simpa using full
  have ends : s.endSendingData = false := by rw [end_iff counter (by omega)]; simpa using inside.ne
  have zero : (s.divider == 0#12) = false := by rw [divider_zero_iff sending]; simp; omega
  have clk : (s.step i).iDacClk = false := by simp [State.step, State.nextDacClk, quiet, muxed, high]
  refine ⟨clk, inside, ?_, ?_, ?_, Nat.zero_le _, by simp [clk], fun _ => ⟨j, rfl, inside, ?_, ?_⟩⟩
  · rw [State.dacSdata, BitVec.msb, moved 0 (by omega), Nat.zero_add]
  · simp [State.step, State.nextSendingData, quiet, ends, sending.sending]
  · simp [State.step, State.nextDivider, quiet, sending.sending, muxed]
  · exact moved_same moved (by simp [State.step, State.nextDataSh, quiet, high])
  · simp [State.step, State.nextBitCounter, quiet, zero, counter]

theorem low_step (sending : Sending divsel frame j t s) (low : s.iDacClk = false) :
    ∃ t, Sending divsel frame j t (s.step i) := by
  obtain ⟨k, rfl, inside, moved, counter⟩ := sending.low low
  have half := sending.half
  have ends : s.endSendingData = false := by rw [end_iff counter (by omega)]; simpa using inside.ne
  have stays : (s.step i).sendingData = true := by
    simp [State.step, State.nextSendingData, quiet, ends, sending.sending]
  have places : (s.step i).bitCounter = 1#_ <<< (k + 1) := by
    simp [State.step, State.nextBitCounter, quiet, low, counter]
  have muxed : s.dividerMuxed i.sclkDivselI = decide (t = 2 ^ (divsel.toNat + 1)) := by rw [same, muxed_iff sending]
  by_cases full : t = 2 ^ (divsel.toNat + 1)
  · have clk : (s.step i).iDacClk = true := by simp [State.step, State.nextDacClk, quiet, muxed, full, low]
    refine ⟨0, stays, ?_, Nat.zero_le _, fun _ => ⟨moved_next moved ?_, places, by omega⟩, by simp [clk]⟩
    · simp [State.step, State.nextDivider, quiet, sending.sending, muxed, full]
    · simp [State.step, State.nextDataSh, quiet, sending.sending, muxed, full, low]
  · have clk : (s.step i).iDacClk = false := by simp [State.step, State.nextDacClk, quiet, muxed, full, ends, low]
    refine ⟨t + 1, stays, ?_, by omega, by simp [clk], fun _ => ⟨k, rfl, inside, moved_same moved ?_, places⟩⟩
    · simp [State.step, State.nextDivider, quiet, sending.sending, muxed, full, sending.divider, BitVec.ofNat_add]
    · simp [State.step, State.nextDataSh, quiet, muxed, full]

end Edge

end Sending

end WrCores.Dacs.SerialDac
