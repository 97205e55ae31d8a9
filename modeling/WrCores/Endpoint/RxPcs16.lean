import WrCores.Clocked.Stream
import WrCores.Endpoint.TxPcs16

/-!
ep_rx_pcs_16bit.vhd in the domain of `phy_rx_clk_i`: the registered decoder of
`p_8b10b_postprocess` and the receive FSM behind it. The synchronisation detector's
`rx_synced` and the synchronised control signals are inputs. The detector of the
calibration pattern, which only drives a status bit and that detector, is left out, and
so is `rx_timestamp_valid`, which is passed through.
-/

namespace WrCores.Endpoint

open Clocked

inductive RxPcs16State where
  | noframe
  | cr
  | spdPreamble
  | payload
  | extend
  deriving DecidableEq, Repr

structure RxPcs16In extends RxFsmIn where
  code : Code16
  encErr : Bool := false
  deriving DecidableEq, Repr

/-- The registers of `p_8b10b_postprocess`. -/
structure RxDecoded16 where
  data : BitVec 16 := 0
  isK : BitVec 2 := 0
  err : Bool := false
  isIdle : Bool := false
  isSpdPreamble : Bool := false
  isPreamble : Bool := false
  isPreambleSfd : Bool := false
  isEof : Bool := false
  isEofExtend : Bool := false
  isExtend : Bool := false
  isLcr : Bool := false
  deriving DecidableEq, Repr

namespace RxDecoded16

/-- A code without an error. -/
def decode (c : Code16) : RxDecoded16 :=
  let high := c.data.extractLsb' 8 8
  let low := c.data.extractLsb' 0 8
  { data := c.data
    isK := c.k
    isIdle := high == cK28_5 && (low == cD16_2 || low == cD5_6) && c.k == 0b10#2
    isSpdPreamble := high == cK27_7 && low == cPreambleChar && c.k == 0b10#2
    isPreamble := c.data == cPreambleChar ++ cPreambleChar && c.k == 0b00#2
    isPreambleSfd := c.data == cPreambleChar ++ cPreambleSfd && c.k == 0b00#2
    isEof := low == cK29_7 && c.k == 0b01#2
    isEofExtend := high == cK29_7 && low == cK23_7 && c.k == 0b11#2
    isExtend := c.data == cK23_7 ++ cK23_7 && c.k == 0b11#2
    isLcr := high == cK28_5 && (low == cD21_5 || low == cD2_2) && c.k == 0b10#2 }

def postprocess (i : RxPcs16In) : RxDecoded16 :=
  if !i.rstNRx || !i.rxSynced then {}
  else if i.encErr then { data := i.code.data, isK := i.code.k, err := true }
  else decode i.code

end RxDecoded16

/-- The registers of `rx_fsm`. -/
structure RxFsm16 where
  rxState : RxPcs16State
  preambleCntr : BitVec 3
  rxBusy : Bool
  fab : InternalFabric
  lcrReady : Bool
  lcrCurVal : BitVec 16
  lcrPrevVal : BitVec 16
  lcrFinalVal : BitVec 16
  lcrValidityCntr : BitVec 2
  anIdleCntr : BitVec 2
  anIdleMatch : Bool
  rmonRxOverrun : Bool
  rmonInvalidCode : Bool
  timestampTrigger : Bool
  timestampPending : BitVec 3
  deriving DecidableEq, Repr

namespace RxFsm16

def reset : RxFsm16 where
  rxState := .noframe
  preambleCntr := 0
  rxBusy := false
  fab := {}
  lcrReady := false
  lcrCurVal := 0
  lcrPrevVal := 0
  lcrFinalVal := 0
  lcrValidityCntr := 0
  anIdleCntr := 0
  anIdleMatch := false
  rmonRxOverrun := false
  rmonInvalidCode := false
  timestampTrigger := false
  timestampPending := 0

/-- Autonegotiation is off. -/
def clearAn (s : RxFsm16) : RxFsm16 :=
  { s with
    lcrReady := false
    lcrValidityCntr := 0
    lcrPrevVal := 0
    anIdleCntr := 0
    anIdleMatch := false }

@[simp] theorem clearAn_rxState (s : RxFsm16) : s.clearAn.rxState = s.rxState := rfl

@[simp] theorem clearAn_preambleCntr (s : RxFsm16) : s.clearAn.preambleCntr = s.preambleCntr := rfl

@[simp] theorem clearAn_fab (s : RxFsm16) : s.clearAn.fab = s.fab := rfl

@[simp] theorem clearAn_timestampPending (s : RxFsm16) :
    s.clearAn.timestampPending = s.timestampPending := rfl

/-- The word of a timestamp that is due, and the end of the frame behind it. -/
def insertTimestamp (s : RxFsm16) (timestamp : BitVec 32) : InternalFabric :=
  let fab := { s.fab with
    eof := false
    error := false
    bytesel := false
    hasRxTimestamp := false
    dvalid := s.timestampPending != 0#3 }
  if s.timestampPending.getLsbD 0 then { fab with data := timestamp.extractLsb' 16 16 }
  else if s.timestampPending.getLsbD 1 then { fab with data := timestamp.extractLsb' 0 16 }
  else if s.timestampPending.getLsbD 2 then { fab with data := 0, eof := true }
  else fab

/-- `old` is the FSM before the edge, `s` the same with autonegotiation's registers
cleared if it is off. -/
def noframeStep (old s : RxFsm16) (d : RxDecoded16) (i : RxFsmIn) : RxFsm16 :=
  let s := { s with
    preambleCntr := 0b011
    fab := old.insertTimestamp i.timestamp
    rxBusy := false
    timestampTrigger := false
    timestampPending := old.timestampPending <<< 1
    rmonInvalidCode := d.err }
  if !i.rxSynced then { s with rxState := .noframe }
  else
    let s :=
      if d.isSpdPreamble then
        if i.pcsFifoAlmostfull then { s with rxState := .noframe, rmonRxOverrun := true }
        else { s with rxState := .spdPreamble }
      else s
    let s :=
      if d.isLcr then
        { s with rxState := .cr, anIdleMatch := false, anIdleCntr := 0, rxBusy := true }
      else s
    if d.isIdle then
      { s with
        lcrReady := false
        lcrValidityCntr := 0
        anIdleMatch := old.anIdleCntr == 3#2
        anIdleCntr := if old.anIdleCntr = 3#2 then 0 else old.anIdleCntr + 1#2
        rxBusy := false }
    else s

/-- Three equal values in a row make a valid one. -/
def crStep (old s : RxFsm16) (d : RxDecoded16) (i : RxFsmIn) : RxFsm16 :=
  let s := { s with rxState := .noframe }
  if d.err || d.isK != 0b00#2 || !i.rxSynced then
    { s with rmonInvalidCode := d.err, lcrReady := false, lcrValidityCntr := 0 }
  else if i.anRxEn then
    let s := { s with
      lcrPrevVal := old.lcrCurVal
      lcrCurVal := d.data.extractLsb' 0 8 ++ d.data.extractLsb' 8 8 }
    if old.lcrCurVal = old.lcrPrevVal then
      if old.lcrValidityCntr = 0b10#2 then { s with lcrReady := true, lcrFinalVal := old.lcrCurVal }
      else { s with lcrValidityCntr := old.lcrValidityCntr + 1#2, lcrReady := false }
    else { s with lcrValidityCntr := 0, lcrReady := false }
  else s

def spdPreambleStep (s : RxFsm16) (d : RxDecoded16) (i : RxFsmIn) : RxFsm16 :=
  let cntr := s.preambleCntr
  let s := { s with rxBusy := true }
  if d.err || !i.rxSynced then { s with rxState := .noframe, rmonInvalidCode := d.err }
  else
    let s :=
      if d.isPreambleSfd then
        if cntr = 0b010#3 ∨ cntr = 0b001#3 then
          { s with
            timestampTrigger := true
            fab := { s.fab with sof := true }
            rxState := .payload }
        else { s with timestampTrigger := true }
      else if d.isPreamble then { s with preambleCntr := cntr - 1#3 }
      else if d.isSpdPreamble then { s with preambleCntr := 0b111 }
      else { s with rxState := .noframe, rmonInvalidCode := true }
    -- too long a preamble
    if cntr = 0#3 then { s with rxState := .noframe } else s

def payloadStep (s : RxFsm16) (d : RxDecoded16) (i : RxFsmIn) : RxFsm16 :=
  let fab := { s.fab with sof := false, eof := false, hasRxTimestamp := false, data := d.data }
  if d.err || !i.rxSynced || i.pcsFifoAlmostfull ||
      (d.isK != 0b00#2 && !d.isEofExtend && !d.isEof) then
    { s with
      fab := { fab with error := true, dvalid := false, bytesel := false }
      rmonInvalidCode := d.err
      rmonRxOverrun := i.pcsFifoAlmostfull
      rxState := .noframe }
  else if d.isEof || d.isEofExtend then
    { s with
      fab := { fab with error := false, bytesel := d.isEof, dvalid := d.isEof }
      rxState := .extend }
  else { s with fab := { fab with error := false, bytesel := false, dvalid := true } }

def extendStep (s : RxFsm16) (d : RxDecoded16) (i : RxFsmIn) : RxFsm16 :=
  let s := { s with timestampTrigger := false, fab := { s.fab with dvalid := false } }
  if d.isExtend then { s with rxState := .extend, fab := { s.fab with eof := false, error := false } }
  else if d.isIdle then
    { s with
      fab := { s.fab with
        eof := !i.timestampStb, error := false, hasRxTimestamp := i.timestampStb }
      timestampPending := if i.timestampStb then 0b111 else 0b000
      rxState := .noframe }
  else { s with fab := { s.fab with error := true }, rmonInvalidCode := true, rxState := .noframe }

/-- `rx_fsm`. -/
def step (s : RxFsm16) (d : RxDecoded16) (i : RxFsmIn) : RxFsm16 :=
  if !i.rstNRx || i.mcrPdown then
    { reset with preambleCntr := s.preambleCntr, lcrFinalVal := s.lcrFinalVal }
  else
    let s' := if i.anRxEn then s else s.clearAn
    match s.rxState with
    | .noframe => noframeStep s s' d i
    | .cr => crStep s s' d i
    | .spdPreamble => s'.spdPreambleStep d i
    | .payload => s'.payloadStep d i
    | .extend => s'.extendStep d i

end RxFsm16

structure RxPcs16 where
  d : RxDecoded16
  fsm : RxFsm16
  deriving DecidableEq, Repr

namespace RxPcs16

def reset : RxPcs16 := ⟨{}, RxFsm16.reset⟩

def step (s : RxPcs16) (i : RxPcs16In) : RxPcs16 where
  d := .postprocess i
  fsm := s.fsm.step s.d i.toRxFsmIn

end RxPcs16

end WrCores.Endpoint
