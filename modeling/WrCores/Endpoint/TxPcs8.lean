import WrCores.Clocked.Stream
import WrCores.Endpoint.Pkg

/-!
ep_tx_pcs_8bit.vhd in the domain of `phy_tx_clk_i`, with the FIFO taken as in the 16-bit
unit. An idle code takes two cycles, a data word too, and the FIFO's output is taken as it
stands, whether an entry was just read or not. `fifo_ready` is not reset, but the state the
reset leads to assigns it before anything reads it.
-/

namespace WrCores.Endpoint

open Clocked

inductive TxPcs8State where
  | comma
  | cal
  | cr1
  | cr2
  | cr3
  | cr4
  | spd
  | idle
  | data
  | preamble
  | sfd
  | epd
  | extend
  | gotoComma
  | genError
  deriving DecidableEq, Repr

/-- `phy_tx_data_o` and `phy_tx_k_o`. -/
structure Code8 where
  data : BitVec 8
  k : Bool
  deriving DecidableEq, Repr

/-- The registers of `p_tx_fsm`. -/
structure TxFsm8 where
  txState : TxPcs8State
  out : Code8
  txCatchDisparity : Bool
  txCntr : BitVec 4
  txCrAlternate : Bool
  txRdreqToggle : Bool
  txOddLength : Bool
  timestampTrigger : Bool
  txError : Bool
  rmonTxUnderrun : Bool
  fifoRd : Bool
  fifoReady : Bool
  deriving DecidableEq, Repr

namespace TxFsm8

def reset : TxFsm8 where
  txState := .comma
  out := ⟨0, false⟩
  txCatchDisparity := false
  txCntr := 0
  txCrAlternate := false
  txRdreqToggle := false
  txOddLength := false
  timestampTrigger := false
  txError := false
  rmonTxUnderrun := false
  fifoRd := false
  fifoReady := false

def commaStep (s : TxFsm8) : TxFsm8 :=
  { s with out := ⟨cK28_5, true⟩, txState := .idle, fifoRd := false, fifoReady := s.fifoRd }

def idleStep (s : TxFsm8) (fab : InternalFabric) (i : TxPcsIn) : TxFsm8 :=
  let s' := { s with
    rmonTxUnderrun := false
    txError := false
    out := ⟨if i.disparity && s.txCatchDisparity then cD5_6 else cD16_2, false⟩
    txCatchDisparity := false
    txCntr := if s.txCntr = 0#4 then 0 else s.txCntr - 1#4 }
  if i.anTxEn then { s' with txState := .cr1, txCrAlternate := false, fifoRd := false }
  else if fab.sof && s.fifoReady && s.txCntr == 0#4 then
    { s' with fifoRd := true, txState := .spd, txCntr := 5 }
  else if i.txCal then { s' with txState := .cal, fifoRd := false, txCrAlternate := false }
  else { s' with fifoRd := s.txCntr == 0#4 && i.enoughData, txState := .comma }

def calStep (s : TxFsm8) (i : TxPcsIn) : TxFsm8 :=
  { s with
    out := ⟨cK28_7, true⟩
    txState := if !i.txCal && s.txCrAlternate then .comma else .cal
    txCrAlternate := !s.txCrAlternate }

def cr1Step (s : TxFsm8) : TxFsm8 := { s with out := ⟨cK28_5, true⟩, txState := .cr2 }

def cr2Step (s : TxFsm8) : TxFsm8 :=
  { s with
    out := ⟨if s.txCrAlternate then cD21_5 else cD2_2, false⟩
    txCrAlternate := !s.txCrAlternate
    txState := .cr3 }

def cr3Step (s : TxFsm8) (i : TxPcsIn) : TxFsm8 :=
  { s with out := { s.out with data := i.anTxVal.extractLsb' 0 8 }, txState := .cr4 }

def cr4Step (s : TxFsm8) (i : TxPcsIn) : TxFsm8 :=
  { s with
    out := { s.out with data := i.anTxVal.extractLsb' 8 8 }
    txState := if i.anTxEn then .cr1 else .comma }

def spdStep (s : TxFsm8) : TxFsm8 :=
  { s with fifoRd := false, out := ⟨cK27_7, true⟩, txState := .preamble }

def preambleStep (s : TxFsm8) : TxFsm8 :=
  { s with
    out := ⟨cPreambleChar, false⟩
    txState := if s.txCntr = 0#4 then .sfd else .preamble
    txRdreqToggle := if s.txCntr = 0#4 then true else s.txRdreqToggle
    txCntr := s.txCntr - 1#4 }

def sfdStep (s : TxFsm8) : TxFsm8 :=
  { s with
    out := { s.out with data := cPreambleSfd }
    txRdreqToggle := true
    txState := .data
    timestampTrigger := true }

def dataStep (s : TxFsm8) (fab : InternalFabric) (i : TxPcsIn) : TxFsm8 :=
  let s' := { s with fifoRd := s.txRdreqToggle && !(i.fifoEmpty || fab.eof) }
  if (i.fifoEmpty || fab.error) && !fab.eof then
    { s' with
      out := ⟨cK30_7, true⟩
      txState := .genError
      txError := !fab.error
      rmonTxUnderrun := true }
  else
    let sent := { s' with
      out := { s.out with
        data := if s.txRdreqToggle then fab.data.extractLsb' 8 8 else fab.data.extractLsb' 0 8 }
      txRdreqToggle := !s.txRdreqToggle
      txOddLength := fab.bytesel }
    if fab.eof && (!s.txRdreqToggle || (s.txRdreqToggle && fab.bytesel)) then
      { sent with txState := .epd, fifoRd := false }
    else sent

def epdStep (s : TxFsm8) : TxFsm8 :=
  { s with timestampTrigger := false, out := ⟨cK29_7, true⟩, txState := .extend }

/-- A frame of odd length stays here for one more cycle. -/
def extendStep (s : TxFsm8) : TxFsm8 :=
  let s' := { s with out := { s.out with data := cK23_7 }, txCntr := 0b1000 }
  if s.txOddLength then { s' with txOddLength := false }
  else { s' with txState := .comma, txCatchDisparity := true }

/-- `p_tx_fsm`; `fab` is what the FIFO's output unpacks to. -/
def step (s : TxFsm8) (fab : InternalFabric) (i : TxPcsIn) : TxFsm8 :=
  if !(i.rstTxclkN && !i.mcrReset) || i.mcrPdown then { reset with fifoReady := s.fifoReady }
  else
    match s.txState with
    | .comma => s.commaStep
    | .idle => s.idleStep fab i
    | .cal => s.calStep i
    | .cr1 => s.cr1Step
    | .cr2 => s.cr2Step
    | .cr3 => s.cr3Step i
    | .cr4 => s.cr4Step i
    | .spd => s.spdStep
    | .preamble => s.preambleStep
    | .sfd => s.sfdStep
    | .data => s.dataStep fab i
    | .epd => s.epdStep
    | .extend => s.extendStep
    | .genError => { s with txState := .epd }
    | .gotoComma => s

end TxFsm8

structure TxPcs8 where
  fsm : TxFsm8
  fifo : TxFifo
  deriving DecidableEq, Repr

namespace TxPcs8

def reset : TxPcs8 := ⟨TxFsm8.reset, ⟨0, []⟩⟩

def fifoFab (s : TxPcs8) : InternalFabric := fUnpackFifoContents s.fifo.packedOut true true

def fifoClearN (i : TxPcsIn) : Bool := i.rstN && !i.mcrPdown

def reads (s : TxPcs8) (i : TxPcsIn) : Bool := s.fsm.fifoRd && !i.fifoEmpty

def fsmStep (s : TxPcs8) (i : TxPcsIn) : TxFsm8 := s.fsm.step s.fifoFab i

/-- An edge without what is written to the FIFO. -/
def advance (s : TxPcs8) (i : TxPcsIn) : TxPcs8 where
  fsm := s.fsmStep i
  fifo := if fifoClearN i then s.fifo.read (s.reads i) else { s.fifo with entries := [] }

def step (s : TxPcs8) (i : TxPcsIn) : TxPcs8 :=
  { s.advance i with
    fifo := if fifoClearN i then (s.advance i).fifo.write i.written else (s.advance i).fifo }

end TxPcs8

end WrCores.Endpoint
