import Mathlib.Data.List.Basic

/-!
generic_shiftreg_fifo.vhd: a shift register that every write moves by one, and a
pointer to its oldest live entry. `sr 0` is the newest entry. The register of the
source has `gSize` stages; here it is a function of the index, of which only the
indices up to the pointer are ever read. The output shows the entry under the
pointer also when the FIFO is empty, so `qO` of an empty FIFO is a stale entry.
-/

namespace WrCores.Genrams

structure ShiftregFifo (α : Type*) where
  sr : Nat → α
  pointer : Nat
  empty : Bool

namespace ShiftregFifo

variable {α : Type*}

/-- After reset; `fill` is what the register happens to hold. -/
def reset (fill : α) : ShiftregFifo α where
  sr := fun _ => fill
  pointer := 0
  empty := true

def shift (sr : Nat → α) (d : α) : Nat → α
  | 0 => d
  | k + 1 => sr k

def pointerFull (gSize : Nat) (s : ShiftregFifo α) : Bool := s.pointer == gSize - 1

def almostFullO (gSize : Nat) (s : ShiftregFifo α) : Bool :=
  s.pointerFull gSize || s.pointer == gSize - 3 || s.pointer == gSize - 2

def qO (s : ShiftregFifo α) : α := s.sr s.pointer

def qValidO (s : ShiftregFifo α) : Bool := !s.empty

def doWrite (gSize : Nat) (s : ShiftregFifo α) (we rd : Bool) : Bool :=
  (rd && we) || (we && !s.pointerFull gSize)

def validCount (gSize : Nat) (s : ShiftregFifo α) (we rd : Bool) : Bool :=
  (we && !rd && !s.pointerFull gSize && !s.empty) || (!we && rd && s.pointer != 0)

def step (gSize : Nat) (s : ShiftregFifo α) (d : α) (we rd : Bool) : ShiftregFifo α where
  sr := if s.doWrite gSize we rd then shift s.sr d else s.sr
  pointer :=
    if s.validCount gSize we rd then (if we then s.pointer + 1 else s.pointer - 1) else s.pointer
  empty :=
    if s.empty && we then false
    else if s.pointer == 0 && rd && !we then true
    else s.empty

/-- The entries in the FIFO, oldest first. -/
def contents (s : ShiftregFifo α) : List α :=
  if s.empty then [] else ((List.range (s.pointer + 1)).map s.sr).reverse

structure Valid (gSize : Nat) (s : ShiftregFifo α) : Prop where
  bounded : s.pointer < gSize
  empty_zero : s.empty = true → s.pointer = 0

theorem reset_valid (gSize : Nat) (positive : 0 < gSize) (fill : α) : (reset fill).Valid gSize :=
  ⟨positive, fun _ => rfl⟩

@[simp] theorem reset_contents (fill : α) : (reset fill).contents = [] := rfl

theorem step_valid (gSize : Nat) (s : ShiftregFifo α) (d : α) (we rd : Bool)
    (valid : s.Valid gSize) : (s.step gSize d we rd).Valid gSize := by
  obtain ⟨sr, pointer, empty⟩ := s
  obtain ⟨bounded, empty_zero⟩ := valid
  simp only at bounded empty_zero
  constructor
  · cases we <;> cases rd <;> cases empty <;> simp [step, validCount, pointerFull] <;>
      (try split) <;> omega
  · cases we <;> cases rd <;> cases empty <;> simp_all [step, validCount]

theorem contents_length (s : ShiftregFifo α) :
    s.contents.length = if s.empty then 0 else s.pointer + 1 := by
  cases empty : s.empty <;> simp [contents, empty]

theorem qValid_iff (s : ShiftregFifo α) : s.qValidO = true ↔ s.contents ≠ [] := by
  rw [Ne, ← List.length_eq_zero_iff, contents_length]
  cases empty : s.empty <;> simp [qValidO, empty]

theorem contents_cons (s : ShiftregFifo α) (live : s.empty = false) :
    s.contents = s.qO :: ((List.range s.pointer).map s.sr).reverse := by
  simp [contents, live, qO, List.range_succ]

/-- A valid FIFO shows its oldest entry. -/
theorem head_contents (s : ShiftregFifo α) (e : α) (rest : List α) (held : s.contents = e :: rest) :
    s.qO = e := by
  have live : s.empty = false := by
    cases empty : s.empty
    · rfl
    · simp [contents, empty] at held
  rw [contents_cons s live] at held
  exact (List.cons.inj held).1

theorem shifted (sr : Nat → α) (d : α) (k : Nat) :
    (List.range (k + 1)).map (shift sr d) = d :: (List.range k).map sr := by
  rw [List.range_succ_eq_map, List.map_cons, List.map_map]
  rfl

/-- The shift register is a FIFO: a read takes the oldest entry, a write appends,
and only a write into a full register that is not read at the same time is lost. -/
theorem contents_step (gSize : Nat) (s : ShiftregFifo α) (d : α) (we rd : Bool)
    (valid : s.Valid gSize) (deep : 2 ≤ gSize) :
    (s.step gSize d we rd).contents =
      (if rd then s.contents.tail else s.contents) ++
        (if we && (rd || !s.pointerFull gSize) then [d] else []) := by
  cases empty : s.empty with
  | true =>
      have zero := valid.empty_zero empty
      have notFull : s.pointerFull gSize = false := by
        simp only [pointerFull, zero, beq_eq_false_iff_ne]
        omega
      cases we <;> cases rd <;>
        simp [step, contents, empty, zero, doWrite, validCount, notFull, shift]
  | false =>
      rw [contents_cons s empty]
      cases we with
      | true =>
          cases rd with
          | true =>
              simp [step, contents, empty, doWrite, validCount, shifted]
          | false =>
              cases full : s.pointerFull gSize with
              | true =>
                  simpa [step, contents, empty, doWrite, validCount, full, qO] using
                    contents_cons s empty
              | false =>
                  simp [step, contents, empty, doWrite, validCount, full, shifted]
                  simp [List.range_succ, qO]
      | false =>
          cases rd with
          | true =>
              by_cases zero : s.pointer = 0
              · simp [step, contents, empty, doWrite, validCount, zero]
              · have back : s.pointer - 1 + 1 = s.pointer := by omega
                simp [step, contents, empty, doWrite, validCount, zero, back]
          | false =>
              simpa [step, contents, empty, doWrite, validCount, qO] using contents_cons s empty

/-- An emptied FIFO keeps showing the entry that was read last. -/
theorem stale_step (gSize : Nat) (s : ShiftregFifo α) (d : α) (rd : Bool) (valid : s.Valid gSize)
    (drained : (s.step gSize d false rd).contents = []) : (s.step gSize d false rd).qO = s.qO := by
  have gone : (s.step gSize d false rd).empty = true := by
    by_contra live
    have count := contents_length (s.step gSize d false rd)
    simp [drained, live] at count
  have zero : s.pointer = 0 := by
    cases empty : s.empty with
    | true => exact valid.empty_zero empty
    | false =>
        by_contra nonzero
        simp [step, empty, nonzero] at gone
  simp [qO, step, doWrite, validCount, zero]

end ShiftregFifo

end WrCores.Genrams
