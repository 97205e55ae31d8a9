import WrCores.Clocked.Stream
import WrCores.Endpoint.Pkg

/-!
ep_tx_pcs_16bit.vhd in the domain of `phy_tx_clk_i`. The clock alignment FIFO is taken to
be correct; `written` is what the system clock put on `pcs_fab_i` since the last edge.
When an entry becomes visible shows only in the flags, which are inputs. The synchronised
control signals are inputs; `tx_busy` and the debug counters are left out.
-/

namespace WrCores.Endpoint

open Clocked

inductive TxPcs16State where
  | commaIdle
  | cal
  | cr12
  | cr34
  | spdPreamble
  | data
  | preamble
  | sfd
  | epd
  | extend
  | genError
  deriving DecidableEq, Repr

/-- `phy_tx_data_o` and `phy_tx_k_o`. -/
structure Code16 where
  data : BitVec 16
  k : BitVec 2
  deriving DecidableEq, Repr

/-- The registers of `p_tx_fsm`. -/
structure TxFsm16 where
  txState : TxPcs16State
  out : Code16
  txCatchDisparity : Bool
  txCntr : BitVec 4
  txCrAlternate : Bool
  timestampTrigger : Bool
  txError : Bool
  rmonTxUnderrun : Bool
  fifoRd : Bool
  deriving DecidableEq, Repr

structure TxPcs16 where
  fsm : TxFsm16
  fifoReady : Bool
  fifo : TxFifo
  fifoClearND1 : Bool
  fifoClearND2 : Bool
  fifoClearND3 : Bool
  fifoClearND4 : Bool
  deriving DecidableEq, Repr

namespace TxFsm16

def txInterframeGap : BitVec 4 := 2

def reset : TxFsm16 where
  txState := .commaIdle
  out := ⟨0, 0⟩
  txCatchDisparity := false
  txCntr := 0
  txCrAlternate := false
  timestampTrigger := false
  txError := false
  rmonTxUnderrun := false
  fifoRd := false

def commaIdleStep (s : TxFsm16) (fab : InternalFabric) (fifoReady : Bool) (i : TxPcsIn) : TxFsm16 :=
  let low := if i.disparity && s.txCatchDisparity then cD5_6 else cD16_2
  let s' := { s with
    rmonTxUnderrun := false
    txError := false
    out := ⟨cK28_5 ++ low, 0b10⟩
    txCatchDisparity := false
    txCntr := if s.txCntr = 0#4 then 0 else s.txCntr - 1#4 }
  if i.anTxEn then { s' with txState := .cr12, txCrAlternate := false, fifoRd := false }
  else if fab.sof && fifoReady && s.txCntr == 0#4 then
    { s' with fifoRd := false, txState := .spdPreamble, txCntr := 1 }
  else if i.txCal then { s' with txState := .cal, fifoRd := false, txCrAlternate := false }
  else { s' with fifoRd := s.txCntr == 0#4 && i.enoughData, txState := .commaIdle }

def calStep (s : TxFsm16) (i : TxPcsIn) : TxFsm16 :=
  { s with
    out := ⟨cK28_7 ++ cK28_7, 0b11⟩
    txCrAlternate := true
    txState := if !i.txCal && s.txCrAlternate then .commaIdle else .cal }

def cr12Step (s : TxFsm16) (i : TxPcsIn) : TxFsm16 :=
  { s with
    fifoRd := !i.fifoEmpty
    out := ⟨cK28_5 ++ (if s.txCrAlternate then cD21_5 else cD2_2), 0b10⟩
    txCrAlternate := !s.txCrAlternate
    txState := .cr34 }

def cr34Step (s : TxFsm16) (i : TxPcsIn) : TxFsm16 :=
  { s with
    fifoRd := !i.fifoEmpty
    out := ⟨i.anTxVal.extractLsb' 0 8 ++ i.anTxVal.extractLsb' 8 8, 0b00⟩
    txState := if i.anTxEn then .cr12 else .commaIdle }

def spdPreambleStep (s : TxFsm16) : TxFsm16 :=
  { s with fifoRd := false, out := ⟨cK27_7 ++ cPreambleChar, 0b10⟩, txState := .preamble }

def preambleStep (s : TxFsm16) : TxFsm16 :=
  { s with
    out := ⟨cPreambleChar ++ cPreambleChar, 0b00⟩
    txState := if s.txCntr = 0#4 then .sfd else .preamble
    fifoRd := if s.txCntr = 0#4 then true else s.fifoRd
    txCntr := s.txCntr - 1#4 }

def sfdStep (s : TxFsm16) : TxFsm16 :=
  { s with
    out := ⟨cPreambleChar ++ cPreambleSfd, 0b00⟩, timestampTrigger := true, txState := .data }

def dataStep (s : TxFsm16) (fab : InternalFabric) (i : TxPcsIn) : TxFsm16 :=
  if (i.fifoEmpty || fab.error) && !fab.eof then
    { s with
      out := ⟨cK30_7 ++ cK23_7, 0b11⟩
      txState := .genError
      txError := !fab.error
      rmonTxUnderrun := true
      fifoRd := false }
  else
    let sent := { s with
      out := if fab.bytesel then ⟨fab.data.extractLsb' 8 8 ++ cK29_7, 0b01⟩ else ⟨fab.data, 0b00⟩ }
    if fab.eof then { sent with txState := if fab.bytesel then .extend else .epd, fifoRd := false }
    else sent

def epdStep (s : TxFsm16) : TxFsm16 :=
  { s with
    timestampTrigger := false
    out := ⟨cK29_7 ++ cK23_7, 0b11⟩
    txCatchDisparity := true
    txCntr := txInterframeGap
    txState := .commaIdle }

def extendStep (s : TxFsm16) : TxFsm16 :=
  { s with
    timestampTrigger := false
    out := ⟨cK23_7 ++ cK23_7, 0b11⟩
    txCatchDisparity := true
    txCntr := txInterframeGap - 1#4
    txState := .commaIdle }

/-- `p_tx_fsm`; `fab` is what the FIFO's output unpacks to. -/
def step (s : TxFsm16) (fab : InternalFabric) (fifoReady : Bool) (i : TxPcsIn) : TxFsm16 :=
  if !(i.rstTxclkN && !i.mcrReset) || i.mcrPdown then reset
  else
    match s.txState with
    | .commaIdle => s.commaIdleStep fab fifoReady i
    | .cal => s.calStep i
    | .cr12 => s.cr12Step i
    | .cr34 => s.cr34Step i
    | .spdPreamble => s.spdPreambleStep
    | .preamble => s.preambleStep
    | .sfd => s.sfdStep
    | .data => s.dataStep fab i
    | .epd => s.epdStep
    | .extend => s.extendStep
    | .genError => { s with txState := .epd }

end TxFsm16

namespace TxPcs16

def reset : TxPcs16 where
  fsm := TxFsm16.reset
  fifoReady := false
  fifo := ⟨0, []⟩
  fifoClearND1 := false
  fifoClearND2 := false
  fifoClearND3 := false
  fifoClearND4 := false

def fifoFab (s : TxPcs16) : InternalFabric :=
  fUnpackFifoContents s.fifo.packedOut s.fifoReady true

def fifoClearND0 (i : TxPcsIn) : Bool := i.rstN && !i.mcrPdown

def fifoClearN (s : TxPcs16) (i : TxPcsIn) : Bool := fifoClearND0 i || s.fifoClearND4

def fifoReadInt (s : TxPcs16) (i : TxPcsIn) : Bool :=
  s.fsm.fifoRd && !(s.fifoFab.eof || s.fifoFab.error || s.fifoFab.sof) && fifoClearND0 i

def reads (s : TxPcs16) (i : TxPcsIn) : Bool := s.fifoReadInt i && !i.fifoEmpty

def fsmStep (s : TxPcs16) (i : TxPcsIn) : TxFsm16 := s.fsm.step s.fifoFab s.fifoReady i

/-- An edge without what is written to the FIFO. -/
def advance (s : TxPcs16) (i : TxPcsIn) : TxPcs16 where
  fsm := s.fsmStep i
  fifoReady := s.fifoReadInt i
  fifo := if s.fifoClearN i then s.fifo.read (s.reads i) else { s.fifo with entries := [] }
  fifoClearND1 := fifoClearND0 i
  fifoClearND2 := s.fifoClearND1
  fifoClearND3 := s.fifoClearND2
  fifoClearND4 := s.fifoClearND3

def step (s : TxPcs16) (i : TxPcsIn) : TxPcs16 :=
  { s.advance i with
    fifo := if s.fifoClearN i then (s.advance i).fifo.write i.written else (s.advance i).fifo }

end TxPcs16

end WrCores.Endpoint
