import WrCores.Clocked.Run
import WrCores.Streamers.DroppingBuffer
import WrCores.Streamers.Escape
import WrCores.Streamers.Pkg

/-!
xrx_streamer.vhd behind its fabric sink: the escape detector, the frame FSM with its
block and frame counters, the output buffer and the fixed-latency gate in front of the
reader. The CRC generator, the timestamper and the synchroniser of its pulse are not
part of the model; `crc_match`, `rx_tag_cycles` and `timestamped` are inputs.
-/

namespace WrCores.Streamers.Rx

open Clocked

inductive State where
  | idle
  | header
  | frameSeqId
  | payload
  | subframeHeader
  | eof
  deriving DecidableEq, Repr

structure Generics where
  gEscapeCodeDisable : Bool
  gExpectedWordsNumber : Nat
  deriving DecidableEq, Repr

structure Fsm (k : Nat) where
  state : State
  count : BitVec 15
  seqNo : BitVec 15
  syncSeqNo : Bool
  detectEscapes : Bool
  isVlan : Bool
  txTagValid : Bool
  txTagCycles : BitVec 28
  serCount : BitVec 8
  wordCount : BitVec 12
  gotNextSubframe : Bool
  packData : Lanes k
  fifoData : Lanes k
  fifoAccept : Bool
  fifoDrop : Bool
  fifoDvalid : Bool
  fifoSync : Bool
  fifoLast : Bool
  pendingWrite : Bool
  rxFrameP1 : Bool
  framesLost : Bool
  rxLostFramesCnt : BitVec 15
  blocksLost : Bool
  rxLatency : BitVec 28
  rxLatencyValid : Bool

/-- What the FSM sees in one cycle besides its own registers. -/
structure FsmIn where
  pipe : Pipe
  isEscape : Bool
  crcMatch : Bool
  rxTagCycles : BitVec 28

namespace Fsm

variable {k : Nat} (gen : Generics) (cfg : RxStreamerCfg)

def reset (k : Nat) : Fsm k where
  state := .idle
  count := 0
  seqNo := BitVec.allOnes 15
  syncSeqNo := true
  detectEscapes := false
  isVlan := false
  txTagValid := false
  txTagCycles := 0
  serCount := 0
  wordCount := 0
  gotNextSubframe := false
  packData := fun _ => 0
  fifoData := fun _ => 0
  fifoAccept := false
  fifoDrop := false
  fifoDvalid := false
  fifoSync := false
  fifoLast := false
  pendingWrite := false
  rxFrameP1 := false
  framesLost := false
  rxLostFramesCnt := 0
  blocksLost := false
  rxLatency := 0
  rxLatencyValid := false

def idleStep (s : Fsm k) (i : FsmIn) : Fsm k :=
  { s with
    state := if i.pipe.sof then .header else .idle
    detectEscapes := false
    count := 0
    fifoAccept := false
    fifoDrop := false
    fifoDvalid := false
    pendingWrite := false
    gotNextSubframe := false
    serCount := 0
    fifoSync := false
    fifoLast := false
    wordCount := 0
    txTagValid := false
    rxFrameP1 := false
    rxLostFramesCnt := 0
    framesLost := false
    blocksLost := false
    rxLatency := 0
    rxLatencyValid := false
    isVlan := false }

/-- The two words of the transmitter's timestamp. -/
def tagHigh (s : Fsm k) (data : BitVec 16) : Fsm k :=
  { s with
    txTagValid := data.getLsbD 15
    txTagCycles := data.extractLsb' 0 12 ++ s.txTagCycles.extractLsb' 0 16 }

def tagLow (s : Fsm k) (data : BitVec 16) : Fsm k :=
  { s with
    txTagCycles := s.txTagCycles.extractLsb' 16 12 ++ data
    detectEscapes := true
    state := .frameSeqId
    rxFrameP1 := true }

/-- One word of the header, chosen by the low eight bits of `count`: the addresses, the
ethertype or a VLAN tag in front of it, and the timestamp. -/
def headerWord (s : Fsm k) (data : BitVec 16) : Fsm k :=
  let n := (s.count.setWidth 8).toNat
  let counted := { s with count := s.count + 1#15 }
  if n < 6 then { counted with state := if cfg.refuses n data then .idle else s.state }
  else match n with
    | 6 =>
        if data = 0x8100#16 then { counted with isVlan := true }
        else if data ≠ cfg.ethertype then { counted with state := .idle, isVlan := false }
        else counted
    | 7 => if s.isVlan then counted else counted.tagHigh data
    | 8 =>
        if s.isVlan then
          if data ≠ cfg.ethertype then { counted with state := .idle } else counted
        else counted.tagLow data
    | 9 => counted.tagHigh data
    | 10 => counted.tagLow data
    | _ => s

def headerStep (s : Fsm k) (i : FsmIn) : Fsm k :=
  if i.pipe.eof then { s with state := .idle }
  else if i.pipe.dvalid then s.headerWord cfg i.pipe.data
  else s

/-- The frame's sequence number, checked against the expected one. -/
def seqWord (s : Fsm k) (data : BitVec 16) : Fsm k :=
  let seq := data.extractLsb' 0 15
  if s.seqNo ≠ seq then
    if s.syncSeqNo then
      { s with seqNo := seq + 1#15, syncSeqNo := false, framesLost := false, rxLostFramesCnt := 0 }
    else
      { s with seqNo := seq + 1#15, framesLost := true, rxLostFramesCnt := seq - s.seqNo }
  else { s with seqNo := s.seqNo + 1#15, framesLost := false, rxLostFramesCnt := 0 }

def latency (s : Fsm k) (rxTagCycles : BitVec 28) : Fsm k :=
  if s.txTagValid then
    { s with
      rxLatencyValid := true
      rxLatency :=
        if rxTagCycles < s.txTagCycles then rxTagCycles - s.txTagCycles + 125000000#28
        else rxTagCycles - s.txTagCycles
      txTagValid := false }
  else { s with rxLatencyValid := false }

def frameSeqIdStep (s : Fsm k) (i : FsmIn) : Fsm k :=
  let s := { s with rxFrameP1 := false }
  if i.pipe.eof then { s with state := .idle }
  else if i.pipe.dvalid then
    let s := (s.latency i.rxTagCycles).seqWord i.pipe.data
    { s with
      count := 1
      state := .payload
      fifoDrop := false
      fifoAccept := false
      serCount := 0
      wordCount := s.wordCount + 1#12
      gotNextSubframe := true }
  else s

def subframeHeaderStep (s : Fsm k) (i : FsmIn) : Fsm k :=
  let s := { s with fifoDrop := false, fifoAccept := false, serCount := 0 }
  if i.pipe.eof then { s with state := .idle, gotNextSubframe := false, blocksLost := false }
  else if i.pipe.dvalid && i.isEscape then
    let block := i.pipe.data.extractLsb' 0 15
    if s.count ≠ block then
      { s with gotNextSubframe := true, count := block + 1#15, blocksLost := true, state := .payload }
    else
      { s with
        gotNextSubframe := true, count := s.count + 1#15, blocksLost := false, state := .payload }
  else s

/-- An escaped character in the payload: the header of the next block, the end of the
last one, or something unknown. -/
def escape (s : Fsm k) (data : BitVec 16) (crcMatch : Bool) : Fsm k :=
  let s' := { s with serCount := 0, fifoLast := true, gotNextSubframe := true }
  if data.getLsbD 15 then
    let block := data.extractLsb' 0 15
    { s' with
      count := if s.count ≠ block then block else s.count + 1#15
      blocksLost := decide (s.count ≠ block)
      state := .payload
      fifoAccept := crcMatch
      fifoDrop := !crcMatch
      fifoDvalid := s.pendingWrite && !s.fifoDvalid
      pendingWrite := false }
  else if data = 0x0bad#16 then
    { s' with
      blocksLost := false
      state := .eof
      fifoAccept := crcMatch
      fifoDrop := !crcMatch
      fifoDvalid := s.pendingWrite && !s.fifoDvalid }
  else { s' with blocksLost := false, state := .eof, fifoDrop := true, fifoAccept := false }

/-- A half-word of payload. -/
def pack (s : Fsm k) (data : BitVec 16) : Fsm k :=
  let s' := { s with
    fifoLast := false
    fifoAccept := false
    fifoDrop := false
    blocksLost := false
    packData := setLane s.packData s.serCount.toNat data }
  if s.serCount.toNat + 1 = k then
    let packed :=
      if s.serCount = 0#8 then
        { s' with serCount := 0, fifoData := s.packData, fifoDvalid := true, pendingWrite := false }
      else
        { s' with
          serCount := 0
          fifoData := topLane s.packData data
          fifoDvalid := false
          pendingWrite := true }
    if s.wordCount.toNat = gen.gExpectedWordsNumber then
      { packed with state := .eof, fifoAccept := true, fifoDrop := false, fifoDvalid := true }
    else { packed with wordCount := s.wordCount + 1#12 }
  else if s.serCount.toNat + 2 = k ∧ s.pendingWrite = true then
    { s' with
      pendingWrite := false
      serCount := s.serCount + 1#8
      fifoDvalid := true
      gotNextSubframe := false }
  else { s' with serCount := s.serCount + 1#8, fifoDvalid := false }

def payloadStep (s : Fsm k) (i : FsmIn) : Fsm k :=
  let s' := { s with
    framesLost := false
    rxLostFramesCnt := 0
    rxLatencyValid := false
    fifoSync := s.gotNextSubframe }
  let s'' :=
    if i.pipe.eof then
      { s' with state := .idle, fifoDrop := true, fifoAccept := false, gotNextSubframe := false }
    else if i.pipe.dvalid then
      if i.isEscape then s'.escape i.pipe.data i.crcMatch else s'.pack gen i.pipe.data
    else { s' with fifoDvalid := false }
  if s.fifoDvalid then { s'' with fifoSync := false } else s''

def eofStep (s : Fsm k) : Fsm k :=
  { s with fifoDvalid := false, fifoDrop := false, fifoAccept := false, state := .idle }

def step (s : Fsm k) (i : FsmIn) : Fsm k :=
  match s.state with
  | .idle => s.idleStep i
  | .header => s.headerStep cfg i
  | .frameSeqId => s.frameSeqIdStep i
  | .subframeHeader => s.subframeHeaderStep i
  | .payload => s.payloadStep gen i
  | .eof => s.eofStep

end Fsm

/-! The fixed-latency gate. -/

inductive DelayState where
  | disabled
  | delay
  | allow
  deriving DecidableEq, Repr

structure Delay where
  delayState : DelayState
  rxLatencyStored : BitVec 28
  rxDreqAllow : Bool
  delayCnt : BitVec 28
  deriving DecidableEq, Repr

namespace Delay

def cTimestamperDelay : BitVec 28 := 12

def reset : Delay := ⟨.disabled, 0, true, cTimestamperDelay⟩

def step (s : Delay) (fixedLatency rxLatency : BitVec 28) (rxLatencyValid timestamped : Bool) :
    Delay :=
  match s.delayState with
  | .disabled =>
      { delayState := if fixedLatency ≠ 0#28 then .allow else .disabled
        rxLatencyStored := 0
        delayCnt := cTimestamperDelay
        rxDreqAllow := true }
  | .allow =>
      let s' :=
        if fixedLatency = 0#28 then { s with delayState := .disabled }
        else if rxLatencyValid then
          { s with rxDreqAllow := false, rxLatencyStored := rxLatency, delayState := .delay }
        else s
      { s' with delayCnt := if timestamped then cTimestamperDelay else s.delayCnt + 2#28 }
  | .delay =>
      if fixedLatency ≤ s.delayCnt + s.rxLatencyStored then
        { s with rxLatencyStored := 0, rxDreqAllow := true, delayState := .allow }
      else { s with delayCnt := s.delayCnt + 2#28 }

end Delay

end WrCores.Streamers.Rx

namespace WrCores.Streamers

open Clocked

structure Rx (k w : Nat) where
  fsm : Rx.Fsm k
  detector : Escape.Detector
  fifoAcceptD0 : Bool
  buffer : DroppingBuffer (RxWord k) w
  delay : Rx.Delay

structure RxIn where
  fab : Fabric.Decoded
  crcMatch : Bool
  rxDreqI : Bool
  rxTagCycles : BitVec 28
  timestamped : Bool

namespace Rx

variable {k w : Nat} (gen : Generics) (cfg : RxStreamerCfg)

def cEscapeCode : BitVec 16 := 0xcafe

def reset (k w : Nat) : Rx k w where
  fsm := Fsm.reset k
  detector := ⟨.idle⟩
  fifoAcceptD0 := false
  buffer := DroppingBuffer.reset ⟨false, false, fun _ => 0⟩
  delay := Delay.reset

def detectorIn (s : Rx k w) (i : RxIn) : Escape.DetectorIn where
  dI := i.fab.data
  dDetectEnableI := s.fsm.detectEscapes
  dValidI := fabDvalid i.fab

def isEscape (s : Rx k w) (i : RxIn) : Bool :=
  !gen.gEscapeCodeDisable && s.detector.dEscapeO (s.detectorIn i)

def fsmIn (s : Rx k w) (i : RxIn) : FsmIn where
  pipe :=
    { data := if gen.gEscapeCodeDisable then i.fab.data
        else s.detector.dO cEscapeCode (s.detectorIn i)
      dvalid := if gen.gEscapeCodeDisable then fabDvalid i.fab
        else s.detector.dValidO cEscapeCode (s.detectorIn i)
      sof := i.fab.sof
      eof := i.fab.eof || i.fab.error }
  isEscape := s.isEscape gen i
  crcMatch := i.crcMatch
  rxTagCycles := i.rxTagCycles

def fifoDin (s : Rx k w) (i : RxIn) : RxWord k where
  first := s.fsm.fifoSync
  last := s.fsm.fifoLast || (!s.fsm.pendingWrite && s.isEscape gen i)
  data := s.fsm.fifoData

def bufferIn (s : Rx k w) (i : RxIn) : DroppingBufferIn (RxWord k) where
  dI := s.fifoDin gen i
  dDropI := s.fsm.fifoDrop
  dAcceptI := s.fifoAcceptD0
  dValidI := s.fsm.fifoDvalid
  dReqI := i.rxDreqI && s.delay.rxDreqAllow

def step (s : Rx k w) (i : RxIn) : Rx k w where
  fsm := s.fsm.step gen cfg (s.fsmIn gen i)
  detector := s.detector.step cEscapeCode (s.detectorIn i)
  fifoAcceptD0 := s.fsm.fifoAccept
  buffer := s.buffer.step (s.bufferIn gen i)
  delay := s.delay.step cfg.fixedLatency s.fsm.rxLatency s.fsm.rxLatencyValid i.timestamped

end Rx

end WrCores.Streamers
