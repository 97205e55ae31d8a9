import WrCores.Endpoint.TxPcs8

/-!
ep_rx_pcs_8bit.vhd in the domain of `phy_rx_clk_i`. Two characters make a word, which is
written when `fifo_wr_toggle` comes back to one; `pcs_fab_o` is a function of the FSM's
registers. What is an input and what is left out is as in the 16-bit unit; `rx_even` of
the synchronisation detector is an input too. `d_is_even`, `fifo_bytesel`, `fifo_rx_data`
and `preamble_cntr` are not reset.
-/

namespace WrCores.Endpoint

open Clocked

inductive RxPcs8State where
  | noframe
  | comma
  | cr3
  | cr4
  | spdPreamble
  | payload
  | extend
  deriving DecidableEq, Repr

structure RxPcs8In extends RxFsmIn where
  code : Code8
  rxEven : Bool
  encErr : Bool := false
  deriving DecidableEq, Repr

/-- The registers of `p_8b10b_postprocess`. -/
structure RxDecoded8 where
  data : BitVec 8 := 0
  isK : Bool := false
  err : Bool := false
  isComma : Bool := false
  isEpd : Bool := false
  isSpd : Bool := false
  isExtend : Bool := false
  isIdle : Bool := false
  isLcr : Bool := false
  isSfdChar : Bool := false
  isPreambleChar : Bool := false
  isEven : Bool := false
  deriving DecidableEq, Repr

namespace RxDecoded8

/-- A character without an error, and whether it is at an even position. -/
def decode (c : Code8 × Bool) : RxDecoded8 where
  data := c.1.data
  isK := c.1.k
  isComma := c.1.data == cK28_5 && c.1.k
  isExtend := c.1.data == cK23_7 && c.1.k
  isSpd := c.1.data == cK27_7 && c.1.k
  isEpd := c.1.data == cK29_7 && c.1.k
  isLcr := (c.1.data == cD21_5 || c.1.data == cD2_2) && !c.1.k
  isIdle := (c.1.data == cD5_6 || c.1.data == cD16_2) && !c.1.k
  isSfdChar := c.1.data == cPreambleSfd && !c.1.k
  isPreambleChar := c.1.data == cPreambleChar && !c.1.k
  isEven := c.2

def postprocess (d : RxDecoded8) (i : RxPcs8In) : RxDecoded8 :=
  if !i.rstNRx then { isEven := d.isEven }
  else if i.encErr then { data := i.code.data, err := true, isEven := i.rxEven }
  else decode (i.code, i.rxEven)

end RxDecoded8

/-- The registers of `rx_fsm`. -/
structure RxFsm8 where
  rxState : RxPcs8State
  preambleCntr : BitVec 3
  rxBusy : Bool
  fifoSof : Bool
  fifoEof : Bool
  fifoError : Bool
  fifoWrToggle : Bool
  fifoMaskWrite : Bool
  fifoWithRxTs : Bool
  fifoBytesel : Bool
  fifoRxData : BitVec 16
  lcrReady : Bool
  lcrCurVal : BitVec 16
  lcrPrevVal : BitVec 16
  lcrFinalVal : BitVec 16
  lcrValidityCntr : BitVec 2
  anIdleCntr : BitVec 2
  anIdleMatch : Bool
  rmonRxOverrun : Bool
  rmonInvalidCode : Bool
  timestampTrigger : Bool
  timestampPending : BitVec 3
  deriving DecidableEq, Repr

namespace RxFsm8

def reset : RxFsm8 where
  rxState := .noframe
  preambleCntr := 0
  rxBusy := false
  fifoSof := false
  fifoEof := false
  fifoError := false
  fifoWrToggle := false
  fifoMaskWrite := false
  fifoWithRxTs := false
  fifoBytesel := false
  fifoRxData := 0
  lcrReady := false
  lcrCurVal := 0
  lcrPrevVal := 0
  lcrFinalVal := 0
  lcrValidityCntr := 0
  anIdleCntr := 0
  anIdleMatch := false
  rmonRxOverrun := false
  rmonInvalidCode := false
  timestampTrigger := false
  timestampPending := 0

def fifoWrreq (s : RxFsm8) : Bool := s.fifoWrToggle && s.fifoMaskWrite

/-- `pcs_fab_o`. -/
def fab (s : RxFsm8) : InternalFabric where
  data := s.fifoRxData
  sof := s.fifoSof && s.fifoWrreq
  eof := s.fifoEof && s.fifoWrreq
  bytesel := s.fifoBytesel
  error := s.fifoError && s.fifoWrreq
  hasRxTimestamp := s.fifoWithRxTs
  dvalid := !(s.fifoSof || s.fifoEof || s.fifoError) && s.fifoWrreq

/-- Autonegotiation is off. -/
def clearAn (s : RxFsm8) : RxFsm8 :=
  { s with
    lcrReady := false
    lcrValidityCntr := 0
    lcrPrevVal := 0
    anIdleCntr := 0
    anIdleMatch := false }

/-- The word of a timestamp that is due, and the end of the frame behind it. -/
def insertTimestamp (s : RxFsm8) (timestamp : BitVec 32) : RxFsm8 :=
  let s' := { s with
    fifoSof := false
    fifoEof := false
    fifoError := false
    fifoBytesel := false
    fifoMaskWrite := s.timestampPending != 0#3
    fifoWrToggle := s.timestampPending != 0#3
    timestampPending := s.timestampPending <<< 1 }
  if s.timestampPending.getLsbD 0 then { s' with fifoRxData := timestamp.extractLsb' 16 16 }
  else if s.timestampPending.getLsbD 1 then { s' with fifoRxData := timestamp.extractLsb' 0 16 }
  else if s.timestampPending.getLsbD 2 then { s' with fifoEof := true }
  else s'

def noframeStep (s : RxFsm8) (d : RxDecoded8) (i : RxFsmIn) : RxFsm8 :=
  let s := { s.insertTimestamp i.timestamp with
    rxBusy := false
    timestampTrigger := false
    rmonInvalidCode := d.err }
  if !i.rxSynced then { s with rxState := .noframe }
  else if d.isComma then { s with rxState := .comma }
  else if d.isSpd then
    if d.isEven && !i.pcsFifoAlmostfull then { s with preambleCntr := 0b111, rxState := .spdPreamble }
    else if i.pcsFifoAlmostfull then { s with rmonRxOverrun := true }
    else s
  else s

/-- `old` is the FSM before the edge, `s` the same with autonegotiation's registers
cleared if it is off. A second character that is neither an idle nor a configuration
leaves the state as it is. -/
def commaStep (old s : RxFsm8) (d : RxDecoded8) (i : RxFsmIn) : RxFsm8 :=
  let s := { s with fifoMaskWrite := false, fifoWrToggle := false, fifoWithRxTs := false }
  if d.err || d.isK || d.isEven || !i.rxSynced then
    { s with
      rmonInvalidCode := d.err
      rxState := .noframe
      lcrReady := false
      anIdleMatch := false
      anIdleCntr := 0 }
  else if d.isIdle then
    let s := { s with rxState := .noframe, lcrReady := false }
    if old.anIdleCntr = 0b11#2 then { s with anIdleMatch := true }
    else { s with anIdleCntr := old.anIdleCntr + 1#2 }
  else if d.isLcr then
    { s with anIdleMatch := false, anIdleCntr := 0, rxBusy := true, rxState := .cr3 }
  else { s with lcrReady := false, anIdleMatch := false, anIdleCntr := 0, lcrValidityCntr := 0 }

/-- Three equal values in a row make a valid one. Even after an error the second byte is
awaited: the assignment of the state at the end overrides that of the error. -/
def cr3Step (old s : RxFsm8) (d : RxDecoded8) (i : RxFsmIn) : RxFsm8 :=
  let s := { s with rxState := .cr4 }
  if d.err || d.isK || !d.isEven || !i.rxSynced then
    { s with rmonInvalidCode := d.err, lcrReady := false, lcrValidityCntr := 0 }
  else if i.anRxEn then
    let s := { s with
      lcrPrevVal := old.lcrCurVal
      lcrCurVal := old.lcrCurVal.extractLsb' 8 8 ++ d.data }
    if old.lcrCurVal = old.lcrPrevVal then
      if old.lcrValidityCntr = 0b10#2 then { s with lcrReady := true, lcrFinalVal := old.lcrCurVal }
      else { s with lcrValidityCntr := old.lcrValidityCntr + 1#2, lcrReady := false }
    else { s with lcrValidityCntr := 0, lcrReady := false }
  else s

def cr4Step (s : RxFsm8) (d : RxDecoded8) (i : RxFsmIn) : RxFsm8 :=
  let s := { s with rxState := .noframe }
  if d.err || d.isK || d.isEven || !i.rxSynced then { s with rmonInvalidCode := d.err }
  else if i.anRxEn then { s with lcrCurVal := d.data ++ s.lcrCurVal.extractLsb' 0 8 }
  else s

def spdPreambleStep (s : RxFsm8) (d : RxDecoded8) (i : RxFsmIn) : RxFsm8 :=
  let cntr := s.preambleCntr
  let s := { s with rxBusy := true }
  if d.err || !i.rxSynced then { s with rxState := .noframe, rmonInvalidCode := d.err }
  else
    let s :=
      if d.isSfdChar then
        if cntr = 0b010#3 ∨ cntr = 0b001#3 then
          { s with
            timestampTrigger := true
            fifoSof := true
            fifoMaskWrite := true
            fifoWrToggle := true
            rxState := .payload }
        else { s with timestampTrigger := true }
      else if d.isPreambleChar then { s with preambleCntr := cntr - 1#3 }
      else if d.isSpd then { s with preambleCntr := 0b111 }
      else s
    -- too long a preamble
    if cntr = 0#3 then { s with rxState := .noframe } else s

def payloadStep (s : RxFsm8) (d : RxDecoded8) (i : RxFsmIn) : RxFsm8 :=
  let s := { s with fifoSof := false }
  if d.err || !i.rxSynced || i.pcsFifoAlmostfull then
    { s with
      rmonInvalidCode := d.err
      rmonRxOverrun := i.pcsFifoAlmostfull
      rxState := .noframe
      fifoError := true
      fifoWrToggle := true }
  else if d.isK then
    if d.isEpd then
      { s with
        fifoBytesel := !s.fifoWrToggle
        fifoWrToggle := !s.fifoWrToggle
        rxState := .extend }
    else
      { s with
        rxState := if d.isComma then .comma else .noframe
        fifoError := true
        fifoWrToggle := true }
  else
    { s with
      fifoWrToggle := !s.fifoWrToggle
      fifoRxData :=
        if s.fifoWrToggle then d.data ++ s.fifoRxData.extractLsb' 0 8
        else s.fifoRxData.extractLsb' 8 8 ++ d.data }

def extendStep (s : RxFsm8) (d : RxDecoded8) (i : RxFsmIn) : RxFsm8 :=
  let s := { s with timestampTrigger := false }
  if d.isExtend then { s with fifoMaskWrite := false, rxState := .extend }
  else if d.isComma then
    { s with
      fifoEof := !i.timestampStb
      fifoWithRxTs := i.timestampStb
      fifoMaskWrite := true
      fifoWrToggle := true
      timestampPending := if i.timestampStb then 0b111 else 0b000
      rxState := .comma }
  else
    { s with
      rmonInvalidCode := true
      fifoError := true
      fifoMaskWrite := true
      fifoWrToggle := true
      rxState := .noframe }

/-- `rx_fsm`. -/
def step (s : RxFsm8) (d : RxDecoded8) (i : RxFsmIn) : RxFsm8 :=
  if !i.rstNRx || i.mcrPdown then
    { reset with
      preambleCntr := s.preambleCntr
      fifoBytesel := s.fifoBytesel
      fifoRxData := s.fifoRxData
      lcrFinalVal := s.lcrFinalVal }
  else
    let s' := if i.anRxEn then s else s.clearAn
    match s.rxState with
    | .noframe => s'.noframeStep d i
    | .comma => commaStep s s' d i
    | .cr3 => cr3Step s s' d i
    | .cr4 => s'.cr4Step d i
    | .spdPreamble => s'.spdPreambleStep d i
    | .payload => s'.payloadStep d i
    | .extend => s'.extendStep d i

end RxFsm8

structure RxPcs8 where
  d : RxDecoded8
  fsm : RxFsm8
  deriving DecidableEq, Repr

namespace RxPcs8

def reset : RxPcs8 := ⟨{}, RxFsm8.reset⟩

def step (s : RxPcs8) (i : RxPcs8In) : RxPcs8 where
  d := s.d.postprocess i
  fsm := s.fsm.step s.d i.toRxFsmIn

end RxPcs8

end WrCores.Endpoint
