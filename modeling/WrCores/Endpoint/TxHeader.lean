import Mathlib.Data.List.Basic
import WrCores.Clocked.Run
import WrCores.Endpoint.Pkg
import WrCores.Fabric.Pkg

/-!
ep_tx_header_processor.vhd: fabric cycles become frames for the PCS, with the port's address where the host gives none,
zeros behind short ones, a pause frame on request and the timestamp of a frame that asks for it. The registers do not
change. Data and addresses that the source sets to 'X' are zero.
-/

namespace WrCores.Endpoint.TxHeader

open Clocked Fabric

/-- `t_tx_framer_state`. -/
inductive Phase where
  | idle
  | delayedSof
  | addr
  | data
  | gap
  | pad
  | abort
  | storeTstamp
  deriving DecidableEq, Repr

inductive OobPhase where
  | oobIdle
  | oob1
  | oob2
  deriving DecidableEq, Repr

structure Generics where
  gWithPacketInjection : Bool
  gWithTimestamper : Bool
  gForceGapLength : Nat
  gRuntPadding : Bool
  deriving DecidableEq, Repr

structure Regs where
  machO : BitVec 16
  maclO : BitVec 32
  vcr0QmodeO : BitVec 2
  ecrPortidO : BitVec 5
  deriving DecidableEq, Repr

structure In where
  wbSnk : SourceOut
  srcDreq : Bool := true
  pcsBusy : Bool := false
  pcsError : Bool := false
  fcPauseReq : Bool := false
  fcPauseDelay : BitVec 16 := 0
  txtsuAck : Bool := false
  txtsTimestamp : BitVec 32 := 0
  txtsTimestampValid : Bool := true
  ecrTxEn : Bool := true
  epCtrl : Bool := true
  deriving DecidableEq, Repr

structure State where
  state : Phase
  counter : BitVec 14
  txPauseMode : Bool
  snkCycD0 : Bool
  storedStatus : StatusReg
  oobState : OobPhase
  oobValid : Bool
  oobType : BitVec 4
  oobFrameId : BitVec 16
  srcFab : InternalFabric
  err : Bool
  rty : Bool
  ack : Bool
  fcPauseReady : Bool
  txtsuStb : Bool
  txtsuTsIncorrect : Bool
  txtsuTsValue : BitVec 32
  txtsuPortId : BitVec 5
  txtsuFid : BitVec 16
  bitselD : Bool
  toBeUntagged : Bool
  sofReg : Bool
  epCtrl : Bool
  deriving DecidableEq, Repr

/-- Counter, data and the timestamp have no reset. -/
structure AfterReset (s : State) : Prop where
  state : s.state = .idle
  txPauseMode : s.txPauseMode = false
  snkCycD0 : s.snkCycD0 = false
  hasSmac : s.storedStatus.hasSmac = false
  oobState : s.oobState = .oob1
  oobValid : s.oobValid = false
  oobType : s.oobType = 0
  dvalid : s.srcFab.dvalid = false
  error : s.srcFab.error = false
  sof : s.srcFab.sof = false
  eof : s.srcFab.eof = false
  bytesel : s.srcFab.bytesel = false
  bitselD : s.bitselD = false
  toBeUntagged : s.toBeUntagged = false
  fcPauseReady : s.fcPauseReady = true
  txtsuStb : s.txtsuStb = false
  sofReg : s.sofReg = false
  epCtrl : s.epCtrl = true

def cWrfOobTypeTx : BitVec 4 := 0b0001

def cQmodePortAccess : BitVec 2 := 0b00

def cMinFrameThr : Nat := 30

def cMinQframeThr : Nat := 32

namespace State

variable (g : Generics) (r : Regs) (s : State) (i : In)

def sofP1 : Bool := !s.snkCycD0 && i.wbSnk.cyc

def eofP1 : Bool := s.snkCycD0 && !i.wbSnk.cyc

def txEn : Bool := i.ecrTxEn && s.epCtrl && i.epCtrl

/-- `p_gen_stall`. -/
def stall : Bool :=
  if !s.txEn i then false
  else if s.eofP1 i then true
  else if i.srcDreq && s.state != .pad && s.state != .gap && s.state != .delayedSof && s.state != .storeTstamp then false
  else if i.wbSnk.adr == cWrfOob && i.wbSnk.cyc then false
  else true

def snkValid : Bool := i.wbSnk.cyc && i.wbSnk.stb && i.wbSnk.we && !s.stall i

def errorP1 : Bool := s.snkValid i && i.wbSnk.adr == cWrfStatus && (fUnmarshallWrfStatus i.wbSnk.dat).error

def abortNow : Bool :=
  (s.state != .idle && s.state != .gap && (!s.txEn i || s.errorP1 i)) || (s.state == .abort && i.wbSnk.cyc)

/-- With `g_runt_padding`, short frames are padded; without, only those that get shorter behind this unit. -/
def needsPadding : Bool :=
  (s.toBeUntagged && s.counter.toNat < cMinQframeThr) || (g.gRuntPadding && s.counter.toNat < cMinFrameThr)

/-- A tag that the port takes off again. -/
def untags (dat : BitVec 16) : Bool := dat == 0x8100 && r.vcr0QmodeO == cQmodePortAccess

def pauses : Bool := s.txPauseMode && !g.gWithPacketInjection

def wantsTstamp : Bool := s.oobValid && s.oobType == cWrfOobTypeTx

/-- The timestamp goes to the TXTSU. -/
def submits : State :=
  { s with
    txtsuStb := true
    txtsuTsIncorrect := !i.txtsTimestampValid
    txtsuTsValue := i.txtsTimestamp
    txtsuPortId := r.ecrPortidO
    txtsuFid := s.oobFrameId
    state := .storeTstamp }

def idleStep : State :=
  let fab := { s.srcFab with error := false, eof := false, dvalid := false, bytesel := false }
  let next := { s with err := false, rty := false, txtsuStb := false, bitselD := false, toBeUntagged := false }
  if (s.sofP1 i || s.sofReg || i.fcPauseReq) && s.txEn i then
    let next := { next with fcPauseReady := false, txPauseMode := i.fcPauseReq, counter := 0 }
    if i.srcDreq then { next with state := .addr, srcFab := { fab with sof := true } } else
      { next with srcFab := fab }
  else { next with srcFab := { fab with sof := false } }

def delayedSofStep : State :=
  if i.srcDreq then { s with state := .addr, srcFab := { s.srcFab with sof := true } } else s

/-- The word at the given place of a header. -/
def headerWord (place : BitVec 4) : BitVec 16 :=
  let dat := i.wbSnk.dat
  let own := !s.storedStatus.hasSmac
  if place = 0 then if s.pauses g then 0x0180 else dat
  else if place = 1 then if s.pauses g then 0xc200 else dat
  else if place = 2 then if s.pauses g then 0x0001 else dat
  else if place = 3 then if own then r.machO else dat
  else if place = 4 then if own then r.maclO.extractLsb' 16 16 else dat
  else if place = 5 then if own then r.maclO.extractLsb' 0 16 else dat
  else if place = 6 then if g.gWithPacketInjection then 0 else 0x8808
  else if place = 7 then if g.gWithPacketInjection then 0 else 0x0001
  else if place = 8 then if g.gWithPacketInjection then 0 else i.fcPauseDelay
  else s.srcFab.data

def addrStep : State :=
  let place := s.counter.setWidth 4
  if i.srcDreq && ((s.snkValid i && i.wbSnk.adr == cWrfData) || s.pauses g) then
    { s with
      counter := s.counter + 1
      srcFab := { s.srcFab with sof := false, dvalid := true, addr := cWrfData, data := s.headerWord g r i place }
      toBeUntagged := if place = 6 then untags r i.wbSnk.dat else s.toBeUntagged
      state :=
        if place = 5 then if !s.txPauseMode || g.gWithPacketInjection then .data else .addr
        else if place < 8 then .addr
        else .pad }
  else { s with srcFab := { s.srcFab with sof := false, dvalid := false, data := 0, addr := 0 } }

def padStep : State :=
  let fab := { s.srcFab with data := 0, dvalid := i.srcDreq, addr := 0 }
  if i.srcDreq then
    let last := s.counter.toNat + 1 = if s.toBeUntagged then cMinQframeThr else cMinFrameThr
    { s with
      counter := s.counter + 1
      state := if last then .gap else .pad
      srcFab := if last then { fab with eof := true } else fab }
  else { s with srcFab := fab }

def dataStep : State :=
  let word := s.snkValid i && i.wbSnk.adr == cWrfData
  let padding := s.needsPadding g
  let next := { s with
    counter := if word then s.counter + 1 else if s.eofP1 i && !padding then 0 else s.counter
    toBeUntagged := if s.counter = 6 then untags r i.wbSnk.dat else s.toBeUntagged
    bitselD := s.bitselD || !i.wbSnk.sel.getLsbD 0
    srcFab := { s.srcFab with
      eof := s.eofP1 i && !padding
      dvalid := word
      data := if word then i.wbSnk.dat else 0
      bytesel := word && !i.wbSnk.sel.getLsbD 0 && !padding
      addr := if padding then 0 else i.wbSnk.adr } }
  if (i.wbSnk.adr == cWrfOob || s.eofP1 i) && padding then { next with state := .pad }
  else if s.eofP1 i && !padding then
    if g.gForceGapLength = 0 && s.bitselD then
      if s.wantsTstamp then if i.pcsBusy then { next with state := .gap } else next.submits r i
      else { next with state := .idle }
    else { next with state := .gap }
  else next

def gapStep : State :=
  let next := { s with
    srcFab := { s.srcFab with eof := false, error := false, dvalid := false, bytesel := false }
    err := false
    rty := false }
  if g.gForceGapLength ≤ s.counter.toNat || g.gForceGapLength = 0 then
    if s.wantsTstamp then if i.pcsBusy then next else next.submits r i
    else { next with state := .idle }
  else { next with counter := s.counter + 1 }

def storeTstampStep : State :=
  let next := { s with
    srcFab := { s.srcFab with eof := false, error := false, dvalid := false, bytesel := false }
    err := false
    rty := false }
  if i.txtsuAck then { next with txtsuStb := false, state := .idle } else next

def abortStep : State :=
  { s with srcFab := { s.srcFab with sof := false, dvalid := true, error := true }, counter := 0, state := .idle }

/-- `p_tx_fsm`. -/
def txFsm : State :=
  if i.pcsError then { s with state := .idle, rty := true, srcFab := { s.srcFab with error := true } }
  else if s.abortNow i then { s with state := .abort, srcFab := { s.srcFab with sof := false, dvalid := false } }
  else
    match s.state with
    | .idle => s.idleStep i
    | .delayedSof => s.delayedSofStep i
    | .addr => s.addrStep g r i
    | .data => s.dataStep g r i
    | .gap => s.gapStep g r i
    | .pad => s.padStep i
    | .abort => s.abortStep
    | .storeTstamp => s.storeTstampStep i

/-- What `p_oob_fsm` leaves in `oob_state` and `oob`. -/
def oobFsm : OobPhase × Bool × BitVec 4 × BitVec 16 :=
  let comes := s.snkValid i && i.wbSnk.adr == cWrfOob
  if !g.gWithTimestamper then (s.oobState, s.oobValid, s.oobType, s.oobFrameId)
  else if s.state = .addr then (.oob1, false, 0, s.oobFrameId)
  else
    match s.oobState with
    | .oob1 =>
        if comes then (.oob2, false, i.wbSnk.dat.extractLsb' 12 4, s.oobFrameId)
        else (.oob1, s.oobValid, s.oobType, s.oobFrameId)
    | .oob2 =>
        if comes && s.oobType == cWrfOobTypeTx then (.oobIdle, true, s.oobType, i.wbSnk.dat)
        else (.oob2, s.oobValid, s.oobType, s.oobFrameId)
    | .oobIdle => (.oobIdle, s.oobValid, s.oobType, s.oobFrameId)

/-- `p_store_status`. -/
def storeStatus : StatusReg :=
  if s.txPauseMode then { s.storedStatus with hasSmac := false, isHp := false, hasCrc := false }
  else if s.snkValid i && i.wbSnk.adr == cWrfStatus then fUnmarshallWrfStatus i.wbSnk.dat
  else s.storedStatus

def step : State :=
  let oob := s.oobFsm g i
  { s.txFsm g r i with
    snkCycD0 := i.wbSnk.cyc
    storedStatus := s.storeStatus i
    oobState := oob.1
    oobValid := oob.2.1
    oobType := oob.2.2.1
    oobFrameId := oob.2.2.2
    sofReg := if s.sofP1 i then true else if s.state = .addr then false else s.sofReg
    ack := s.snkValid i
    epCtrl := if !i.epCtrl then false else if !i.wbSnk.cyc then true else s.epCtrl }

end State

/-! ### The cycles on the sink -/

def ofAdr (adr : BitVec 2) (ws : List Word) : List Word := ws.filter (·.adr == adr)

/-- The low byte is not there. -/
def odd (w : Word) : Bool := !w.sel.getLsbD 0

/-- What may come behind the words of a cycle: STATUS words without the error bit, at least one; DATA words, at least
seven, the last of them odd or not; OOB words. -/
def Follows (ws : List Word) (w : Word) : Prop :=
  (w.adr = cWrfStatus ∧ ofAdr cWrfData ws = [] ∧ ofAdr cWrfOob ws = [] ∧ (fUnmarshallWrfStatus w.dat).error = false) ∨
    (w.adr = cWrfData ∧ ofAdr cWrfStatus ws ≠ [] ∧ ofAdr cWrfOob ws = [] ∧ (∀ v ∈ ofAdr cWrfData ws, odd v = false) ∧
      (odd w = true → 6 ≤ (ofAdr cWrfData ws).length)) ∨
    (w.adr = cWrfOob ∧ 7 ≤ (ofAdr cWrfData ws).length)

instance (ws : List Word) (w : Word) : Decidable (Follows ws w) := inferInstanceAs (Decidable (_ ∨ _))

/-- The word that is accepted. -/
def takes (s : State) (i : In) : List Word := if s.snkValid i then [i.wbSnk.word] else []

theorem ofAdr_append (adr : BitVec 2) (ws more : List Word) : ofAdr adr (ws ++ more) =
    ofAdr adr ws ++ ofAdr adr more :=
  List.filter_append ..

theorem ofAdr_same {adr : BitVec 2} {w : Word} (same : w.adr = adr) (ws : List Word) :
    ofAdr adr (ws ++ [w]) = ofAdr adr ws ++ [w] := by
  simp [ofAdr, same]

theorem ofAdr_other {adr : BitVec 2} {w : Word} (other : w.adr ≠ adr) (ws : List Word) :
    ofAdr adr (ws ++ [w]) = ofAdr adr ws := by
  simp [ofAdr, other]

section Quiet

variable {g : Generics} {r : Regs} {s : State} {i : In}

/-- Transmission is enabled and the PCS has no error. -/
structure Quiet (s : State) (i : In) : Prop where
  txEn : s.txEn i = true
  pcsError : i.pcsError = false

instance (s : State) (i : In) : Decidable (Quiet s i) := decidable_of_iff (_ ∧ _)
    ⟨fun ⟨a, b⟩ => ⟨a, b⟩, fun ⟨a, b⟩ => ⟨a, b⟩⟩

theorem Follows.noError {ws : List Word} (follows : s.snkValid i = true → Follows ws i.wbSnk.word) :
    s.errorP1 i = false := by
  cases valid : s.snkValid i with
  | false => simp [State.errorP1, valid]
  | true =>
      rcases follows valid with ⟨-, -, -, clean⟩ | ⟨adr, -⟩ | ⟨adr, -⟩
      · have clean : (fUnmarshallWrfStatus i.wbSnk.dat).error = false := clean
        simp [State.errorP1, clean]
      · have adr : i.wbSnk.adr = cWrfData := adr
        simp [State.errorP1, adr, cWrfData, cWrfStatus]
      · have adr : i.wbSnk.adr = cWrfOob := adr
        simp [State.errorP1, adr, cWrfOob, cWrfStatus]

theorem txFsm_quiet (quiet : Quiet s i) (noError : s.errorP1 i = false) (going : s.state ≠ .abort) :
    s.txFsm g r i = match s.state with
      | .idle => s.idleStep i
      | .delayedSof => s.delayedSofStep i
      | .addr => s.addrStep g r i
      | .data => s.dataStep g r i
      | .gap => s.gapStep g r i
      | .pad => s.padStep i
      | .abort => s.abortStep
      | .storeTstamp => s.storeTstampStep i := by
  have goes : s.abortNow i = false := by simp [State.abortNow, quiet.txEn, noError, going]
  rw [State.txFsm, quiet.pcsError, goes]
  rfl

/-- Where the sink is stalled, nothing but an OOB word is accepted. -/
theorem stalled (quiet : Quiet s i)
    (phase : i.srcDreq = false ∨ s.state = .pad ∨ s.state = .gap ∨ s.state = .storeTstamp)
    (adr : i.wbSnk.adr ≠ cWrfOob) : s.snkValid i = false := by
  have stall : s.stall i = true := by
    have other : (i.wbSnk.adr == cWrfOob) = false := by simpa using adr
    rcases phase with dreq | state | state | state <;> simp [State.stall, quiet.txEn, *]
  simp [State.snkValid, stall]

end Quiet

/-! ### For runs on fixed inputs -/

def reset : State where
  state := .idle
  counter := 0
  txPauseMode := false
  snkCycD0 := false
  storedStatus := {}
  oobState := .oob1
  oobValid := false
  oobType := 0
  oobFrameId := 0
  srcFab := {}
  err := false
  rty := false
  ack := false
  fcPauseReady := true
  txtsuStb := false
  txtsuTsIncorrect := false
  txtsuTsValue := 0
  txtsuPortId := 0
  txtsuFid := 0
  bitselD := false
  toBeUntagged := false
  sofReg := false
  epCtrl := true

theorem afterReset_reset : AfterReset reset := by constructor <;> rfl

def anyRegs : Regs := ⟨0x1122, 0x33445566, cQmodePortAccess, 3⟩

def padding : Generics := ⟨false, true, 0, true⟩

/-- A word on the sink. -/
def driven (adr : BitVec 2) (dat : BitVec 16) (sel : BitVec 2) : In := { wbSnk := ⟨adr, dat, true, true, true, sel⟩ }

/-- No cycle. -/
def free : In := { wbSnk := ⟨cWrfData, 0, false, false, true, 0b11⟩ }

end WrCores.Endpoint.TxHeader
