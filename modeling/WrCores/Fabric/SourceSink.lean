import WrCores.Clocked.Run
import WrCores.Fabric.Pkg
import WrCores.Genrams.ShiftregFifo

/-!
xwb_fabric_source.vhd and xwb_fabric_sink.vhd, the two ends of a fabric link. Both
hold a 16-entry generic_shiftreg_fifo of 22-bit entries; an entry is a record here,
with the fields the source packs into `fin` and unpacks from `fout`. The FIFO's
`almost_full_o` is what both call `full`. After reset the shift registers hold zeros.
-/

namespace WrCores.Fabric

open Genrams

structure Entry where
  sof : Bool
  eof : Bool
  bytesel : Bool
  dvalid : Bool
  addr : BitVec 2
  data : BitVec 16
  deriving DecidableEq, Repr

def Entry.zero : Entry := ⟨false, false, false, false, 0, 0⟩

def cFifoSize : Nat := 16

/-- The decoded fabric at either end: what a user drives into a source in one
cycle, and what a sink shows in one cycle. -/
structure Decoded where
  addr : BitVec 2
  data : BitVec 16
  dvalid : Bool
  sof : Bool
  eof : Bool
  error : Bool
  bytesel : Bool
  deriving DecidableEq, Repr

structure Source where
  fifo : ShiftregFifo Entry
  cycInt : Bool

namespace Source

def reset : Source := ⟨ShiftregFifo.reset Entry.zero, false⟩

/-- `err_status`: only its error bit is driven. -/
def errStatus : StatusReg := { error := true }

def we (u : Decoded) : Bool := u.sof || u.eof || u.error || u.dvalid

def fin (u : Decoded) : Entry where
  sof := u.sof
  eof := u.error || u.eof
  bytesel := u.bytesel
  dvalid := u.dvalid || u.error
  addr := if u.error then cWrfStatus else u.addr
  data := if u.error then fMarshallWrfStatus errStatus else u.data

def full (s : Source) : Bool := s.fifo.almostFullO cFifoSize

def dreqO (s : Source) : Bool := !s.full

def srcO (s : Source) : SourceOut where
  cyc := s.cycInt
  we := true
  stb := s.fifo.qO.dvalid && s.fifo.qValidO
  sel := if s.fifo.qO.bytesel then 0b10#2 else 0b11#2
  dat := s.fifo.qO.data
  adr := s.fifo.qO.addr

/-- `p_gen_cyc`: cyc follows the entry at the head of the FIFO. -/
def nextCyc (s : Source) : Bool :=
  if s.fifo.qValidO then
    if s.fifo.qO.sof then true else if s.fifo.qO.eof then false else s.cycInt
  else s.cycInt

def step (s : Source) (u : Decoded) (stall : Bool) : Source where
  fifo := s.fifo.step cFifoSize (fin u) (we u) (!stall)
  cycInt := s.nextCyc

end Source

structure Sink where
  cycD0 : Bool
  rdD0 : Bool
  fifo : ShiftregFifo Entry
  foutReg : Entry
  ack : Bool

namespace Sink

def reset : Sink := ⟨false, false, ShiftregFifo.reset Entry.zero, Entry.zero, false⟩

def full (s : Sink) : Bool := s.fifo.almostFullO cFifoSize

def stall (s : Sink) (snkI : SourceOut) : Bool := s.full || (snkI.cyc && !s.cycD0)

def fin (s : Sink) (snkI : SourceOut) : Entry where
  sof := snkI.cyc && !s.cycD0
  eof := !snkI.cyc && s.cycD0
  bytesel := !snkI.sel.getLsbD 0
  dvalid := snkI.stb && snkI.we && snkI.cyc && !s.stall snkI
  addr := snkI.adr
  data := snkI.dat

def we (s : Sink) (snkI : SourceOut) : Bool :=
  ((s.fin snkI).sof || (s.fin snkI).eof || (s.fin snkI).bytesel || (s.fin snkI).dvalid) && !s.full

def postSof (s : Sink) : Bool := s.foutReg.sof && s.rdD0

def rd (s : Sink) (dreqI : Bool) : Bool := s.fifo.qValidO && dreqI && !s.postSof

def out (s : Sink) : Decoded where
  sof := s.postSof && s.rdD0
  dvalid := s.foutReg.dvalid && s.rdD0
  error := s.rdD0 && s.foutReg.addr == cWrfStatus && (fUnmarshallWrfStatus s.foutReg.data).error
  eof := s.foutReg.eof && s.rdD0
  bytesel := s.foutReg.bytesel
  data := s.foutReg.data
  addr := s.foutReg.addr

def snkO (s : Sink) (snkI : SourceOut) : SourceIn where
  ack := s.ack
  stall := s.stall snkI
  err := false
  rty := false

def step (s : Sink) (snkI : SourceOut) (dreqI : Bool) : Sink where
  cycD0 := if s.full then s.cycD0 else snkI.cyc
  rdD0 := s.rd dreqI
  fifo := s.fifo.step cFifoSize (s.fin snkI) (s.we snkI) (s.rd dreqI)
  foutReg := if s.rd dreqI then s.fifo.qO else s.foutReg
  ack := snkI.cyc && snkI.stb && snkI.we && !s.stall snkI

end Sink

end WrCores.Fabric
