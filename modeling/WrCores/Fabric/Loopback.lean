import Mathlib.Data.BitVec
import Mathlib.Tactic
import WrCores.Clocked.Run

/-!
xwrf_loopback.vhd: frames go into one FIFO without their first three words, their sizes into another, and come out again
with the source as the destination. The FIFOs are outside this repository: they are taken to be correct, with a full flag
that is true exactly when they are full, and to ignore what is written then. The registers that force a
destination are inputs, as is the request of the source, which ep_rx_wb_master makes; the counters and the acknowledge
are left out, and `mcr_ena_o` is always set.
-/

namespace WrCores.Fabric.Loopback

open Clocked

abbrev Word := BitVec 16

/-- `lbk_rxfsm`. -/
inductive RxFsm where
  | idle
  | payload
  | drop
  | fend
  deriving DecidableEq, Repr

/-- `lbk_txfsm`. -/
inductive TxFsm where
  | idle
  | getSize
  | payload
  | eof
  deriving DecidableEq, Repr

/-- `data` says that the address is `c_WRF_DATA`; `undef` is what the empty size FIFO shows. -/
structure In where
  cyc : Bool
  stb : Bool
  data : Bool
  sel : BitVec 2
  dat : Word
  dreq : Bool
  fdmac : Bool
  forcedDmac : Fin 3 → Word
  undef : BitVec 16
  deriving DecidableEq

structure State where
  rx : RxFsm
  fsize : BitVec 16
  frameWr : Bool
  frameIn : Word
  fsizeWr : Bool
  fsizeIn : BitVec 16
  frameFifo : List Word
  frameOut : Word
  sizeFifo : List (BitVec 16)
  tx : TxFsm
  txsize : BitVec 16
  txCnt : BitVec 4
  fsizeRd : Bool
  frameRd : Bool
  sof : Bool
  eof : Bool
  dvalid : Bool
  bytesel : Bool
  deriving DecidableEq, Repr

/-- `frame_wr`, `fsize_wr` and the flags of the source have no reset; they are low after one cycle of it. -/
structure AfterReset (s : State) : Prop where
  rx : s.rx = .idle
  fsize : s.fsize = 0
  frameWr : s.frameWr = false
  fsizeWr : s.fsizeWr = false
  frameFifo : s.frameFifo = []
  sizeFifo : s.sizeFifo = []
  tx : s.tx = .idle
  fsizeRd : s.fsizeRd = false
  frameRd : s.frameRd = false
  sof : s.sof = false
  eof : s.eof = false
  dvalid : s.dvalid = false

namespace State

def frameSize : Nat := 2048

def sizeSize : Nat := 8

variable (s : State) (i : In)

def fwordValid (i : In) : Bool := i.cyc && i.stb && i.data

def ffifoFull : Bool := decide (frameSize ≤ s.frameFifo.length)

def sfifoFull : Bool := decide (sizeSize ≤ s.sizeFifo.length)

def sfifoEmpty : Bool := s.sizeFifo.isEmpty

def fsizeOut : BitVec 16 := s.sizeFifo.head?.getD i.undef

/-- The destination is not stored. -/
def stores : Bool := decide (4 < s.fsize) && fwordValid i

def nextRx : RxFsm :=
  match s.rx with
  | .idle => if i.cyc then (if s.ffifoFull || s.sfifoFull then .drop else .payload) else .idle
  | .payload => if i.cyc then (if s.stores i && s.ffifoFull then .drop else .payload) else .fend
  | .drop => if i.cyc then .drop else .fend
  | .fend => .idle

def nextFsize : BitVec 16 :=
  match s.rx with
  | .idle => s.fsize
  | .payload =>
      if s.stores i && s.ffifoFull then s.fsize - 2
      else if fwordValid i && decide (i.sel = 3) && !s.ffifoFull then s.fsize + 2
      else if fwordValid i && decide (i.sel = 2) && !s.ffifoFull then s.fsize + 1
      else s.fsize
  | .drop => s.fsize
  | .fend => if 4 < s.fsize then 0 else s.fsize

def writesFrame : Bool := decide (s.rx = .payload) && s.stores i && !s.ffifoFull

def writesSize : Bool := decide (s.rx = .fend) && decide (4 < s.fsize)

def nextTx : TxFsm :=
  match s.tx with
  | .idle => if !s.sfifoEmpty && i.dreq then .getSize else .idle
  | .getSize => if i.dreq then .payload else .getSize
  | .payload => if i.dreq && decide (s.txsize ≤ 2) then .eof else .payload
  | .eof => if i.dreq then .idle else .eof

def nextTxsize : BitVec 16 :=
  match s.tx with
  | .idle => 0
  | .getSize => s.fsizeOut i
  | .payload =>
      if i.dreq && decide (1 < s.txsize) then s.txsize - 2
      else if i.dreq && decide (s.txsize = 1) then s.txsize - 1
      else s.txsize
  | .eof => s.txsize

def nextTxCnt : BitVec 4 :=
  match s.tx with
  | .idle => 0
  | .getSize => 0
  | .payload => if i.dreq && decide (s.txCnt < 15) then s.txCnt + 1 else s.txCnt
  | .eof => s.txCnt

/-- The words of the source are not read twice. -/
def readsFrame : Bool :=
  match s.tx with
  | .getSize => i.dreq
  | .payload => i.dreq && (decide (s.txCnt < 3) || decide (5 < s.txCnt)) && decide (2 < s.txsize)
  | _ => false

/-- Of a word of the header nothing is said where the frame ends before it. -/
def sendsWord : Bool :=
  decide (s.tx = .payload) &&
    (i.dreq && (decide (s.txCnt < 3) || decide (5 < s.txCnt)) && decide (2 < s.txsize) ||
      (i.dreq && decide (3 ≤ s.txCnt) && decide (s.txCnt ≤ 5) ||
        i.dreq && decide (5 < s.txCnt) && decide (s.txsize ≤ 2)))

def nextBytesel : Bool :=
  match s.tx with
  | .idle => false
  | .payload =>
      if i.dreq && decide (1 < s.txsize) then false
      else if i.dreq && decide (s.txsize = 1) then true
      else s.bytesel
  | _ => s.bytesel

def popsFrame : Bool := s.frameRd && !s.frameFifo.isEmpty

def step : State where
  rx := s.nextRx i
  fsize := s.nextFsize i
  frameWr := s.writesFrame i
  frameIn := if s.writesFrame i then i.dat else s.frameIn
  fsizeWr := s.writesSize
  fsizeIn := if s.writesSize then s.fsize else s.fsizeIn
  frameFifo := (if s.popsFrame then s.frameFifo.tail else s.frameFifo) ++
    if s.frameWr && !s.ffifoFull then [s.frameIn] else []
  frameOut := if s.popsFrame then s.frameFifo.head?.getD s.frameOut else s.frameOut
  sizeFifo := (if s.fsizeRd then s.sizeFifo.tail else s.sizeFifo) ++
    if s.fsizeWr && !s.sfifoFull then [s.fsizeIn] else []
  tx := s.nextTx i
  txsize := s.nextTxsize i
  txCnt := s.nextTxCnt i
  fsizeRd := decide (s.tx = .idle) && !s.sfifoEmpty && i.dreq
  frameRd := s.readsFrame i
  sof := decide (s.tx = .getSize) && i.dreq
  eof := decide (s.tx = .eof) && i.dreq
  dvalid := s.sendsWord i
  bytesel := s.nextBytesel i

/-- The word of `forced_dmac` that stands in `src_fab.data`. -/
def forced : Option Word :=
  if i.fdmac && s.txCnt == 1 then some (i.forcedDmac 0)
  else if i.fdmac && s.txCnt == 2 then some (i.forcedDmac 1)
  else if i.fdmac && s.txCnt == 3 then some (i.forcedDmac 2)
  else none

/-- `src_fab.data`. -/
def srcData : Word := (s.forced i).getD s.frameOut

end State

end WrCores.Fabric.Loopback
