import WrCores.Clocked.Stream
import WrCores.I2c.Listener

/-!
wr_si57x_interface.vhd with the RFREQ registers as they are. A strobe of the tuning port puts the sum of the base and
the tuning value into `rfreq_current`; the state machine freezes the oscillator, writes its registers from 8 on and
releases it, with the bytes of the frequency taken from `rfreq_current` bit by bit as they go out.
-/

namespace WrCores.Si57x

open Clocked I2c

inductive I2cTransaction
  | start
  | stop
  | sendByte
  deriving DecidableEq, Repr

inductive FsmState
  | idle
  | siStart0
  | siAddr0
  | siReg0
  | siFreeze0
  | siStop0
  | siStart1
  | siAddr1
  | siReg1
  | siRf0
  | siRf1
  | siRf2
  | siRf3
  | siRf4
  | siStop1
  | siStart2
  | siAddr2
  | siReg2
  | siFreeze2
  | siStop2
  deriving DecidableEq, Repr

structure Config where
  rfreqlO : BitVec 32
  rfreqhO : BitVec 8

structure In where
  tmDacValueI : BitVec 24
  tmDacValueWrI : Bool
  gpsrSclLoadO : Bool
  gpsrSclO : Bool
  gpsrSdaLoadO : Bool
  gpsrSdaO : Bool
  gpcrSclO : Bool
  gpcrSdaO : Bool
  deriving DecidableEq, Repr

/-- What `p_i2c_fsm` drives. -/
structure Fsm where
  state : FsmState
  seqCount : BitVec 9
  scl : Bool
  sda : Bool
  deriving DecidableEq, Repr

structure State where
  rfreqCurrent : BitVec 38
  newRfreq : Bool
  i2cDivider : BitVec 5
  i2cTick : Bool
  fsm : Fsm
  sclOutHost : Bool
  sdaOutHost : Bool
  sclPadOenO : Bool
  sdaPadOenO : Bool
  deriving DecidableEq, Repr

/-- `rfreq_current` and the outputs to the pads have no reset. -/
structure AfterReset (s : State) : Prop where
  newRfreq : s.newRfreq = false
  i2cDivider : s.i2cDivider = 0#5
  i2cTick : s.i2cTick = false
  fsm : s.fsm = ⟨.idle, 0#9, true, true⟩
  sclOutHost : s.sclOutHost = true
  sdaOutHost : s.sdaOutHost = true

/-! ### The procedure f_i2c_iterate -/

namespace Fsm

variable (f : Fsm) (value : BitVec 8)

/-- `counter(1 downto 0)`. -/
def phase : Nat := (f.seqCount.extractLsb' 0 2).toNat

def lines : I2cTransaction → Fsm
  | .start =>
      match f.phase with
      | 0 => { f with scl := true, sda := true }
      | 1 => { f with sda := false }
      | 2 => { f with scl := false }
      | _ => f
  | .stop =>
      match f.phase with
      | 0 => { f with sda := false }
      | 1 => { f with scl := true }
      | 2 => { f with sda := true }
      | _ => f
  | .sendByte =>
      match f.phase with
      | 0 => { f with sda := value.getLsbD (7 - (f.seqCount.extractLsb' 2 3).toNat) }
      | 1 => { f with scl := true }
      | 2 => { f with scl := false }
      | _ => f

def last : I2cTransaction → Bool
  | .start | .stop => f.phase == 2
  | .sendByte => f.phase == 2 && f.seqCount.getLsbD 5

def fI2cIterate (tick : Bool) (transType : I2cTransaction) (nextState : FsmState) : Fsm :=
  if !tick then f
  else if f.last transType then { f.lines value transType with state := nextState, seqCount := 0#9 }
  else { f.lines value transType with seqCount := f.seqCount + 1 }

end Fsm

/-! ### The processes -/

namespace Config

variable (c : Config)

def rfreqBase : BitVec 38 := c.rfreqhO.extractLsb' 0 6 ++ c.rfreqlO

def n1 : BitVec 2 := c.rfreqhO.extractLsb' 6 2

/-- The low 16 bits of the tuning value, with their sign. -/
def rfreqAdj (tmDacValueI : BitVec 24) : BitVec 38 := (tmDacValueI.extractLsb' 0 16).signExtend 38

/-- What a strobe writes. -/
def rfreq (tmDacValueI : BitVec 24) : BitVec 38 := c.rfreqBase + rfreqAdj tmDacValueI

end Config

/-- One call of `f_i2c_iterate`. -/
structure Call where
  value : BitVec 8
  transType : I2cTransaction
  nextState : FsmState

/-- The calls of `p_i2c_fsm`; in `IDLE` there is none. -/
def call (c : Config) (rfreqCurrent : BitVec 38) : FsmState → Option Call
  | .idle => none
  | .siStart0 => some ⟨0x00#8, .start, .siAddr0⟩
  | .siAddr0 => some ⟨0xaa#8, .sendByte, .siReg0⟩
  | .siReg0 => some ⟨0x87#8, .sendByte, .siFreeze0⟩
  | .siFreeze0 => some ⟨0x20#8, .sendByte, .siStop0⟩
  | .siStop0 => some ⟨0x00#8, .stop, .siStart1⟩
  | .siStart1 => some ⟨0x00#8, .start, .siAddr1⟩
  | .siAddr1 => some ⟨0xaa#8, .sendByte, .siReg1⟩
  | .siReg1 => some ⟨0x08#8, .sendByte, .siRf0⟩
  | .siRf0 => some ⟨c.n1 ++ rfreqCurrent.extractLsb' 32 6, .sendByte, .siRf1⟩
  | .siRf1 => some ⟨rfreqCurrent.extractLsb' 24 8, .sendByte, .siRf2⟩
  | .siRf2 => some ⟨rfreqCurrent.extractLsb' 16 8, .sendByte, .siRf3⟩
  | .siRf3 => some ⟨rfreqCurrent.extractLsb' 8 8, .sendByte, .siRf4⟩
  | .siRf4 => some ⟨rfreqCurrent.extractLsb' 0 8, .sendByte, .siStop1⟩
  | .siStop1 => some ⟨0x00#8, .stop, .siStart2⟩
  | .siStart2 => some ⟨0x00#8, .start, .siAddr2⟩
  | .siAddr2 => some ⟨0xaa#8, .sendByte, .siReg2⟩
  | .siReg2 => some ⟨0x87#8, .sendByte, .siFreeze2⟩
  | .siFreeze2 => some ⟨0x00#8, .sendByte, .siStop2⟩
  | .siStop2 => some ⟨0x00#8, .stop, .idle⟩

def Fsm.step (c : Config) (rfreqCurrent : BitVec 38) (newRfreq tick : Bool) (f : Fsm) : Fsm :=
  match call c rfreqCurrent f.state with
  | none => if newRfreq then { f with state := .siStart0 } else f
  | some k => f.fI2cIterate k.value tick k.transType k.nextState

def State.step (c : Config) (s : State) (i : In) : State where
  rfreqCurrent := if i.tmDacValueWrI then c.rfreq i.tmDacValueI else s.rfreqCurrent
  newRfreq := i.tmDacValueWrI
  i2cDivider := s.i2cDivider + 1
  i2cTick := s.i2cDivider == 0
  fsm := s.fsm.step c s.rfreqCurrent s.newRfreq s.i2cTick
  sclOutHost := if i.gpcrSclO then false else if i.gpsrSclLoadO && i.gpsrSclO then true else s.sclOutHost
  sdaOutHost := if i.gpcrSdaO then false else if i.gpsrSdaLoadO && i.gpsrSdaO then true else s.sdaOutHost
  sclPadOenO := if s.fsm.state = .idle then s.sclOutHost else s.fsm.scl
  sdaPadOenO := if s.fsm.state = .idle then s.sdaOutHost else s.fsm.sda

end WrCores.Si57x
