import Mathlib.Data.BitVec
import WrCores.Clocked.Run
import WrCores.Eca.Free

/-!
eca_scan.vhd: deadlines wait in a table whose slots are looked at in turn, one in two cycles. A deadline is written with
the number of rounds it has to wait, each look counts it down, and at zero it goes out. The table is an eca_tdp
memory; what its port shows while it is written is undefined and may be anything.
-/

namespace WrCores.Eca

namespace Scan

open Clocked

-- `g_log_size`, `g_log_multiplier`, `c_log_count` and `g_ext_size`; `g_log_latency` is `n + lm + 1`.
variable {n lm cc e : Nat}

/-- One record of the table. -/
structure Cell (n lm cc e : Nat) where
  valid : Bool
  late : Bool
  early : Bool
  ext : BitVec e
  low : BitVec (n + lm + 1)
  count : BitVec cc
  deriving DecidableEq, Repr

/-- A record of zeros, as the reset writes it. -/
def Cell.zero : Cell n lm cc e := ⟨false, false, false, 0, 0, 0⟩

structure In (n e : Nat) where
  time : BitVec 64
  wen : Bool
  deadline : BitVec 64
  idx : BitVec n
  ext : BitVec e
  deriving DecidableEq, Repr

structure State (n lm cc e : Nat) where
  rReset : BitVec (n + 1)
  rTime3 : BitVec 64
  rTime2 : BitVec 64
  rTime1 : BitVec 64
  rWen1 : Bool
  rWen2 : Bool
  rWen3 : Bool
  rDeadline1 : BitVec 65
  rOutput2 : BitVec 65
  rCount3 : BitVec 65
  rIdx1 : BitVec n
  rIdx2 : BitVec n
  rIdx3 : BitVec n
  rExt1 : BitVec e
  rExt2 : BitVec e
  rExt3 : BitVec e
  rLow2 : BitVec (n + lm + 1)
  rLow3 : BitVec (n + lm + 1)
  table : BitVec n → Cell n lm cc e
  sBoRaw : Cell n lm cc e
  rBypass : Bool
  rAi : Cell n lm cc e
  rIdxo : BitVec n
  rStb : Bool
  scanLate : Bool
  scanEarly : Bool
  scanLow : BitVec (n + lm + 1)
  scanIdx : BitVec n
  scanExt : BitVec e

/-- The registers with a reset, and those of `bypass` after an edge under it. -/
structure AfterReset (s : State n lm cc e) : Prop where
  rReset : s.rReset = 0
  rTime3 : s.rTime3 = 0
  rTime2 : s.rTime2 = 0
  rTime1 : s.rTime1 = 0
  rWen1 : s.rWen1 = false
  rWen2 : s.rWen2 = false
  rWen3 : s.rWen3 = false
  rBypass : s.rBypass = true
  rAi : s.rAi = Cell.zero
  rIdxo : s.rIdxo = 0
  rStb : s.rStb = false

namespace State

def sReady (s : State n lm cc e) : Bool := s.rReset.msb

def stall (s : State n lm cc e) : Bool := !s.sReady

def sLate3 (s : State n lm cc e) : Bool := s.rCount3.getLsbD 64

/-- `g_log_max_delay` is `n + lm + 1 + cc`. -/
def sEarly3 (s : State n lm cc e) : Bool :=
  fEcaOr (s.rCount3.extractLsb' (n + lm + 1 + cc) (64 - (n + lm + 1 + cc))) && !s.sLate3

def sCount3 (s : State n lm cc e) : BitVec cc :=
  if s.sLate3 then 0 else if s.sEarly3 then BitVec.allOnes cc else s.rCount3.extractLsb' (n + lm + 1) cc

def sAi (s : State n lm cc e) : Cell n lm cc e := ⟨true, s.sLate3, s.sEarly3, s.rExt3, s.rLow3, s.sCount3⟩

def sBo (s : State n lm cc e) : Cell n lm cc e := if s.rBypass then s.rAi else s.sBoRaw

def sNotZero (s : State n lm cc e) : Bool := fEcaOr s.sBo.count

def sBi (s : State n lm cc e) : Cell n lm cc e := { s.sBo with valid := s.sNotZero, count := s.sBo.count - 1 }

def sWeno (s : State n lm cc e) : Bool := !s.rTime1.getLsbD lm && s.rTime2.getLsbD lm && s.sBo.valid

/-- The slot is held for the second cycle. -/
def sIdxo (s : State n lm cc e) : BitVec n :=
  if s.rTime2.getLsbD lm then s.rIdxo else s.rTime2.extractLsb' (lm + 1) n

def sBWen (s : State n lm cc e) : Bool := !s.sReady || s.sWeno

def sBAddr (s : State n lm cc e) : BitVec n := if s.sReady then s.sIdxo else s.rReset.setWidth n

/-- The next time at which the slot is looked at and that is not after the deadline. -/
def nextOutput (s : State n lm cc e) : BitVec 65 :=
  let slot : BitVec 65 := (s.rIdx1 ++ (0 : BitVec (lm + 1))).setWidth 65
  ((s.rDeadline1 - slot) >>> (n + lm + 1)) <<< (n + lm + 1) ||| slot

/-- The memory of eca_tdp: port A writes first. -/
def nextTable (s : State n lm cc e) : BitVec n → Cell n lm cc e :=
  let written := if s.rWen3 then Function.update s.table s.rIdx3 s.sAi else s.table
  if s.sBWen then Function.update written s.sBAddr s.sBi else written

/-- One edge; `undef` is what undefined data of the table happens to be. -/
def step (undef : Cell n lm cc e) (s : State n lm cc e) (i : In n e) : State n lm cc e where
  rReset := s.rReset + (BitVec.ofBool (!s.sReady)).setWidth (n + 1)
  rTime3 := i.time + BitVec.ofNat 64 (5 * 2 ^ lm)
  rTime2 := s.rTime3
  rTime1 := s.rTime2
  rWen1 := i.wen && s.sReady
  rWen2 := s.rWen1
  rWen3 := s.rWen2
  rDeadline1 := i.deadline.setWidth 65
  rOutput2 := s.nextOutput
  rCount3 := s.rOutput2 - s.rTime3.setWidth 65
  rIdx1 := i.idx
  rIdx2 := s.rIdx1
  rIdx3 := s.rIdx2
  rExt1 := i.ext
  rExt2 := s.rExt1
  rExt3 := s.rExt2
  rLow2 := s.rDeadline1.setWidth (n + lm + 1)
  rLow3 := s.rLow2
  table := s.nextTable
  sBoRaw := if s.sBWen || (s.rWen3 && decide (s.rIdx3 = s.sBAddr)) then undef else s.table s.sBAddr
  rBypass := if s.sReady then s.rWen3 && fEcaEq s.rIdx3 s.sIdxo else true
  rAi := if s.sReady then s.sAi else Cell.zero
  rIdxo := s.sIdxo
  rStb := !s.sNotZero && s.sWeno
  scanLate := if s.sWeno then s.sBo.late else s.scanLate
  scanEarly := if s.sWeno then s.sBo.early else s.scanEarly
  scanLow := if s.sWeno then s.sBo.low else s.scanLow
  scanIdx := if s.sWeno then s.rIdxo else s.scanIdx
  scanExt := if s.sWeno then s.sBo.ext else s.scanExt

end State

end Scan

end WrCores.Eca
