import WrCores.Clocked.Run
import WrCores.Streamers.Escape
import WrCores.Streamers.Pkg

/-!
xtx_streamer.vhd in front of its fabric source: the transmit buffer, the counters that
decide when to send, the frame FSM as it stands (an older one is commented out above it)
and the escape inserter, which `g_escape_code_disable` takes out of the path.

The buffer is a show-ahead FIFO taken to be correct. A word written is in it at once but
may become visible later; how many more words become visible is an input (`reveal`), and
so are its full and almost-empty flags. `crc_value` and the timestamper's `tag_valid` are
inputs. Data the source drives to 'X', always with dvalid low, is zero here. The part of
`tx_dreq_o` that waits for the link is not modelled: nothing in the unit reads it.
-/

namespace WrCores.Streamers

open Clocked

inductive TxState where
  | idle
  | sof
  | ethHeader
  | frameSeqId
  | subframeHeader
  | payload
  | crcWord
  | padding
  | eof
  deriving DecidableEq, Repr

structure TxGenerics where
  gTxMaxWordsPerFrame : Nat
  gTxTimeout : Nat
  gEscapeCodeDisable : Bool
  deriving DecidableEq, Repr

/-- An entry of the transmit buffer, `tx_fifo_d`. -/
structure TxEntry (k : Nat) where
  last : Bool
  data : Lanes k
  deriving DecidableEq

/-- `fsm_out`. -/
structure TxOut where
  sof : Bool
  eof : Bool
  dvalid : Bool
  data : BitVec 16
  deriving DecidableEq, Repr

structure Tx (k : Nat) where
  state : TxState
  out : TxOut
  count : BitVec 15
  seqNo : BitVec 15
  serCount : BitVec 8
  wordCount : BitVec 12
  totalWords : BitVec 11
  crcEn : Bool
  crcReset : Bool
  txFrameP1 : Bool
  tagValidLatched : Bool
  txFlushLatched : Bool
  fsmEscapeEnable : Bool
  fsmEscape : Bool
  bufFrameCount : BitVec 6
  timeoutCounter : BitVec 12
  txTimeoutHit : Bool
  inserter : Escape.Inserter
  /-- The words of the buffer that its output side sees, and those it does not see yet. -/
  shown : List (TxEntry k)
  behind : List (TxEntry k)

structure TxIn (k : Nat) where
  txData : Lanes k
  txValid : Bool
  txLastP1 : Bool
  txFlushP1 : Bool
  txResetSeq : Bool
  dreq : Bool
  txFifoFull : Bool
  txAlmostEmpty : Bool
  reveal : Nat
  crcValue : BitVec 16
  tagValid : Bool

namespace Tx

variable {k : Nat} (gen : TxGenerics) (cfg : TxStreamerCfg)

def cMinPacketSize : Nat := 32

def cEscapeCode : BitVec 16 := 0xcafe

def reset (k : Nat) : Tx k where
  state := .idle
  out := ⟨false, false, false, 0⟩
  count := 0
  seqNo := 0
  serCount := 0
  wordCount := 0
  totalWords := 0
  crcEn := false
  crcReset := true
  txFrameP1 := false
  tagValidLatched := false
  txFlushLatched := false
  fsmEscapeEnable := false
  fsmEscape := false
  bufFrameCount := 0
  timeoutCounter := 0
  txTimeoutHit := false
  inserter := ⟨.idle, 0, false⟩
  shown := []
  behind := []

def inserterIn (s : Tx k) (dreq : Bool) : Escape.InserterIn where
  dI := s.out.data
  dInsertEnableI := s.fsmEscapeEnable
  dEscapeI := s.fsmEscape
  dValidI := s.out.dvalid
  dReqI := dreq

/-- `fsm_out.dreq`: the fabric source's request, through the inserter if there is one. -/
def fsmDreq (s : Tx k) (dreq : Bool) : Bool :=
  if gen.gEscapeCodeDisable then dreq else Escape.Inserter.dReqO cEscapeCode (s.inserterIn dreq)

/-- `fab_src`: what the fabric source is given. -/
def fabSrc (s : Tx k) (dreq : Bool) : TxOut :=
  if gen.gEscapeCodeDisable then s.out
  else
    { s.out with
      data := s.inserter.dO cEscapeCode (s.inserterIn dreq)
      dvalid := s.inserter.dValidO (s.inserterIn dreq) }

def txFifoEmpty (s : Tx k) : Bool := s.shown.isEmpty

def txFifoLast (s : Tx k) : Bool := (s.shown.head?.map (·.last)).getD false

/-- Lane `n` of `tx_fifo_q`. -/
def txFifoLane (s : Tx k) (n : Nat) : BitVec 16 :=
  match s.shown with
  | [] => 0
  | e :: _ => if h : n < k then e.data ⟨n, h⟩ else 0

def txFifoWe (i : TxIn k) : Bool := i.txValid && !i.txFifoFull

def lastLane (s : Tx k) : Bool := s.serCount.toNat + 1 == k

def txFifoRd (s : Tx k) (dreq : Bool) : Bool :=
  s.state == .payload && s.lastLane && s.fsmDreq gen dreq && !s.txFifoEmpty

def txThresholdHit (s : Tx k) (i : TxIn k) : Bool := !i.txAlmostEmpty && s.bufFrameCount != 0#6

def idleStep (s : Tx k) (i : TxIn k) (dreq flushLatched : Bool) : Tx k :=
  let start := dreq && (flushLatched || i.txFlushP1 || s.txThresholdHit i)
  { s with
    tagValidLatched := false
    txFlushLatched := i.txFlushP1 || s.txTimeoutHit
    crcEn := false
    crcReset := false
    txFrameP1 := false
    state := if start then .sof else .idle
    out := { s.out with eof := false, sof := if start then true else s.out.sof }
    fsmEscapeEnable := false
    fsmEscape := false }

def sofStep (s : Tx k) : Tx k :=
  { s with
    out := { s.out with sof := false }
    serCount := 0
    state := .ethHeader
    count := 0
    wordCount := 0 }

/-- The words before the payload; the source gives 'X' for a count past the seventh. -/
def headerData (n : Nat) : BitVec 16 :=
  match n with
  | 0 => macWord cfg.macTarget 0
  | 1 => macWord cfg.macTarget 1
  | 2 => macWord cfg.macTarget 2
  | 3 => macWord cfg.macLocal 0
  | 4 => macWord cfg.macLocal 1
  | 5 => macWord cfg.macLocal 2
  | 6 => if cfg.qtagEna then 0x8100#16 else cfg.ethertype
  | _ => 0

/-- `seqNo` is the register's value before the edge. -/
def ethHeaderStep (s : Tx k) (seqNo : BitVec 15) (dreq : Bool) : Tx k :=
  if dreq then
    let n := (s.count.setWidth 8).toNat
    let sent := { s with out := { s.out with data := headerData cfg n, dvalid := true } }
    if n < 6 then { sent with count := s.count + 1#15 }
    else if n = 6 then
      { sent with
        seqNo := seqNo + 1#15
        count := 1
        fsmEscape := false
        fsmEscapeEnable := true
        crcEn := true
        crcReset := false
        state := .payload }
    else { sent with count := 0 }
  else { s with out := { s.out with dvalid := false } }

def frameSeqIdStep (s : Tx k) (seqNo : BitVec 15) (dreq : Bool) : Tx k :=
  if dreq then
    { s with
      seqNo := seqNo + 1#15
      count := 1
      out := { s.out with dvalid := true }
      fsmEscape := false
      fsmEscapeEnable := true
      crcEn := true
      crcReset := false
      state := .payload }
  else { s with out := { s.out with dvalid := false } }

def subframeHeaderStep (s : Tx k) (dreq : Bool) : Tx k :=
  let s := { s with crcEn := true, crcReset := false }
  if dreq then
    { s with
      out := { s.out with dvalid := true, data := 1#1 ++ s.count }
      fsmEscape := true
      fsmEscapeEnable := true
      count := s.count + 1#15
      state := .payload }
  else { s with out := { s.out with dvalid := false, data := 0 } }

def payloadStep (s : Tx k) (dreq : Bool) : Tx k :=
  let s := { s with fsmEscape := false }
  if dreq then
    { s with
      state := if s.txFifoEmpty || (s.lastLane && s.txFifoLast) then .eof else .payload
      wordCount := if s.lastLane then s.wordCount + 1#12 else s.wordCount
      serCount := if s.lastLane then 0 else s.serCount + 1#8
      out := { s.out with data := s.txFifoLane s.serCount.toNat, dvalid := !s.txFifoEmpty } }
  else { s with out := { s.out with data := 0, dvalid := false } }

def crcWordStep (s : Tx k) (crcValue : BitVec 16) (dreq : Bool) : Tx k :=
  let s := { s with crcEn := false, serCount := 0 }
  if dreq then
    { s with
      out := { s.out with dvalid := true, data := crcValue }
      crcReset := true
      state := if s.txFifoEmpty || decide (gen.gTxMaxWordsPerFrame ≤ s.wordCount.toNat) then .padding
        else .subframeHeader }
  else { s with out := { s.out with data := 0, dvalid := false } }

def paddingStep (s : Tx k) (dreq : Bool) : Tx k :=
  if dreq then
    { s with
      fsmEscape := true
      out := { s.out with dvalid := true, data := 0x0bad }
      state := if cMinPacketSize ≤ s.totalWords.toNat then .eof else .padding
      crcReset := false }
  else { s with out := { s.out with dvalid := false, data := 0 } }

def eofStep (s : Tx k) (dreq : Bool) : Tx k :=
  let s := { s with out := { s.out with dvalid := false } }
  if dreq then { s with out := { s.out with eof := true }, txFrameP1 := true, state := .idle } else s

/-- `p_fsm`, after the assignments in front of its case statement. -/
def fsmStep (s : Tx k) (i : TxIn k) : Tx k :=
  let dreq := s.fsmDreq gen i.dreq
  let d := { s with
    seqNo := if i.txResetSeq then 0 else s.seqNo
    tagValidLatched := i.tagValid || s.tagValidLatched
    txFlushLatched := false }
  match s.state with
  | .idle => d.idleStep i dreq s.txFlushLatched
  | .sof => d.sofStep
  | .ethHeader => d.ethHeaderStep cfg s.seqNo dreq
  | .frameSeqId => d.frameSeqIdStep s.seqNo dreq
  | .subframeHeader => d.subframeHeaderStep dreq
  | .payload => d.payloadStep dreq
  | .crcWord => d.crcWordStep gen i.crcValue dreq
  | .padding => d.paddingStep dreq
  | .eof => d.eofStep dreq

/-- `p_frame_counter`: the blocks in the buffer. -/
def nextFrameCount (s : Tx k) (i : TxIn k) : BitVec 6 :=
  let writesLast := txFifoWe i && i.txLastP1
  let readsLast := s.txFifoRd gen i.dreq && s.txFifoLast
  if writesLast && !readsLast then s.bufFrameCount + 1#6
  else if !writesLast && readsLast then s.bufFrameCount - 1#6
  else s.bufFrameCount

/-- The word a user's write puts into the buffer. -/
def written (i : TxIn k) : List (TxEntry k) := if txFifoWe i then [⟨i.txLastP1, i.txData⟩] else []

def step (s : Tx k) (i : TxIn k) : Tx k :=
  { s.fsmStep gen cfg i with
    totalWords :=
      if s.out.sof then 0 else if s.out.dvalid then s.totalWords + 1#11 else s.totalWords
    bufFrameCount := s.nextFrameCount gen i
    timeoutCounter :=
      if !s.txFifoEmpty && !s.txThresholdHit i then s.timeoutCounter + 1#12 else 0
    txTimeoutHit := decide (s.timeoutCounter.toNat = gen.gTxTimeout)
    inserter := s.inserter.step cEscapeCode (s.inserterIn i.dreq)
    shown := (if s.txFifoRd gen i.dreq then s.shown.tail else s.shown) ++
      (s.behind ++ written i).take i.reveal
    behind := (s.behind ++ written i).drop i.reveal }

end Tx

end WrCores.Streamers
