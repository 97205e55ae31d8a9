import WrCores.Clocked.Run
import WrCores.Fabric.Pkg

/-!
The transmit path of wr_mini_nic.vhd: `p_count_acks` and `p_tx_fsm` behind the show-ahead
FIFO, which is the list of its words. While the FIFO is empty its output shows whatever the
memory holds there. `g_buffer_little_endian` is a parameter.
-/

namespace WrCores.MiniNic

open Clocked
open Fabric (cWrfData cWrfOob cWrfStatus fUnmarshallWrfStatus SourceOut Word)

def cWrfBytesel : BitVec 2 := 0b11#2

def cNtxTimeout : BitVec 8 := 100

/-- A word of either FIFO. -/
structure FifoWord where
  type : BitVec 2
  data : BitVec 16
  deriving DecidableEq, Repr

inductive TxState where
  | idle
  | status
  | packet
  | flush
  | endPacket
  deriving DecidableEq, Repr

structure TxIn where
  srcStall : Bool := false
  srcErr : Bool := false
  srcAck : Bool := false
  mcrTxStart : Bool := false
  stale : FifoWord := ⟨0, 0⟩
  rstN : Bool := true
  deriving DecidableEq, Repr

structure MinicTx where
  fifo : List FifoWord := []
  txFifoRd : Bool := false
  srcCyc : Bool := false
  srcStb : Bool := false
  srcSel : BitVec 2 := 0b11
  srcAdr : BitVec 2 := cWrfData
  srcDat : BitVec 16 := 0
  ntxState : TxState := .idle
  ntxTimeout : BitVec 8 := 0
  ntxAckCount : BitVec 3 := 0
  ntxStored : FifoWord := ⟨0, 0⟩
  ntxFlushLast : Bool := false
  ntxRstTsReady : Bool := false
  ntxNewpacket : Bool := false
  mcrTxIdle : Bool := false
  mcrTxError : Bool := false
  deriving DecidableEq, Repr

def fSwapEndian16 (littleEndian : Bool) (data : BitVec 16) : BitVec 16 :=
  if littleEndian then data.extractLsb' 0 8 ++ data.extractLsb' 8 8 else data

namespace MinicTx

variable (littleEndian : Bool)

def txFifoEmpty (s : MinicTx) : Bool := s.fifo.isEmpty

def txFifoQ (s : MinicTx) (i : TxIn) : FifoWord := s.fifo.headD i.stale

def txfFerror (s : MinicTx) (i : TxIn) : Bool :=
  !s.txFifoEmpty && (s.txFifoQ i).type == cWrfStatus && (fUnmarshallWrfStatus (s.txFifoQ i).data).error

def txfFnew (s : MinicTx) (i : TxIn) : Bool :=
  !s.txFifoEmpty && (s.txFifoQ i).type == cWrfStatus && !(fUnmarshallWrfStatus (s.txFifoQ i).data).error

/-- What the source drives; `src_we_o` is constant. -/
def src (s : MinicTx) : SourceOut :=
  { adr := s.srcAdr, dat := s.srcDat, cyc := s.srcCyc, stb := s.srcStb, we := true, sel := s.srcSel }

/-- `p_count_acks`. -/
def countAcks (s : MinicTx) (i : TxIn) : BitVec 3 :=
  if !i.rstN || !s.srcCyc || i.srcErr then 0
  else if s.srcStb && !i.srcStall && !i.srcAck then s.ntxAckCount + 1
  else if i.srcAck && !(s.srcStb && !i.srcStall) then s.ntxAckCount - 1
  else s.ntxAckCount

def idleStep (s : MinicTx) (i : TxIn) : MinicTx :=
  let next := { s with
    mcrTxError := false, srcCyc := false, srcStb := false, srcSel := 0b11, srcAdr := (s.txFifoQ i).type
    ntxTimeout := cNtxTimeout, ntxFlushLast := false, ntxNewpacket := false }
  if !s.txFifoEmpty && !s.txfFnew i then
    { next with txFifoRd := true, ntxRstTsReady := false, mcrTxIdle := false }
  else if !s.txFifoEmpty && s.txfFnew i && i.mcrTxStart then
    { next with
      srcCyc := true, txFifoRd := true, ntxRstTsReady := true, mcrTxIdle := false, ntxState := .status }
  else { next with txFifoRd := false, ntxRstTsReady := false, mcrTxIdle := true }

def statusStep (s : MinicTx) (i : TxIn) : MinicTx :=
  { s with
    mcrTxIdle := false, ntxRstTsReady := false, srcCyc := true, srcStb := true, srcSel := 0b11
    srcAdr := cWrfStatus, srcDat := fSwapEndian16 littleEndian (s.txFifoQ i).data, txFifoRd := true
    ntxFlushLast := false, ntxNewpacket := false, ntxState := .packet }

def packetStep (s : MinicTx) (i : TxIn) : MinicTx :=
  let next := { s with mcrTxIdle := false, ntxRstTsReady := false, srcCyc := true, ntxNewpacket := false }
  let q := s.txFifoQ i
  let sends := !s.txFifoEmpty && !i.srcStall && !s.txfFerror i
  let payload := { next with
    srcDat := fSwapEndian16 littleEndian q.data, srcStb := true, txFifoRd := true, ntxFlushLast := false }
  if sends && q.type == cWrfData then { payload with srcAdr := cWrfData, srcSel := 0b11 }
  else if sends && q.type == cWrfBytesel then { payload with srcAdr := cWrfData, srcSel := 0b10 }
  else if sends && q.type == cWrfOob then { payload with srcAdr := cWrfOob, srcSel := 0b11 }
  else if (s.txFifoEmpty || s.txfFnew i) && !i.srcStall then
    { next with
      srcAdr := cWrfData, srcDat := fSwapEndian16 littleEndian q.data, srcStb := false, srcSel := 0b11
      txFifoRd := false, ntxFlushLast := false, ntxState := .endPacket }
  else
    { next with
      txFifoRd := false, srcStb := true, ntxStored := q, ntxFlushLast := s.txFifoEmpty, ntxState := .flush }

def flushStep (s : MinicTx) (i : TxIn) : MinicTx :=
  let next := { s with mcrTxIdle := false, ntxRstTsReady := false, srcCyc := true, ntxNewpacket := false }
  let stored := fSwapEndian16 littleEndian s.ntxStored.data
  let loaded :=
    if !i.srcStall && (s.ntxStored.type == cWrfData || s.ntxStored.type == cWrfOob) then
      { next with srcAdr := s.ntxStored.type, srcDat := stored, srcSel := 0b11 }
    else if !i.srcStall && s.ntxStored.type == cWrfBytesel then
      { next with srcAdr := cWrfData, srcDat := stored, srcSel := 0b10 }
    else next
  if !s.ntxFlushLast && !i.srcStall then { loaded with srcStb := true, txFifoRd := true, ntxState := .packet }
  else if s.ntxFlushLast && !i.srcStall then
    { loaded with srcStb := false, txFifoRd := false, ntxState := .endPacket }
  else { loaded with srcStb := true, txFifoRd := false, ntxState := .flush }

def endPacketStep (s : MinicTx) : MinicTx :=
  let timeoutIsZero := s.ntxTimeout == 0
  let next := { s with
    mcrTxIdle := false, ntxRstTsReady := false, srcStb := false, ntxTimeout := s.ntxTimeout - 1 }
  if s.ntxAckCount == 0 || timeoutIsZero then
    { next with
      mcrTxError := timeoutIsZero, srcCyc := false, srcSel := 0b11, txFifoRd := false, ntxNewpacket := true
      ntxState := .idle }
  else next

/-- `p_tx_fsm`. -/
def fsmStep (s : MinicTx) (i : TxIn) : MinicTx :=
  if !i.rstN then
    { s with
      srcCyc := false, srcStb := false, srcSel := 0b11, srcAdr := cWrfData, txFifoRd := false
      ntxRstTsReady := false, ntxState := .idle, ntxStored := ⟨0, 0⟩, ntxFlushLast := false
      ntxNewpacket := false }
  else
    match s.ntxState with
    | .idle => s.idleStep i
    | .status => s.statusStep littleEndian i
    | .packet => s.packetStep littleEndian i
    | .flush => s.flushStep littleEndian i
    | .endPacket => s.endPacketStep

def step (s : MinicTx) (i : TxIn) : MinicTx :=
  { s.fsmStep littleEndian i with
    fifo := if !i.rstN then [] else if s.txFifoRd then s.fifo.tail else s.fifo
    ntxAckCount := s.countAcks i }

/-! ### What is queued, and what is seen -/

inductive Kind where
  | data
  | bytesel
  | oob
  deriving DecidableEq, Repr

def Kind.type : Kind → BitVec 2
  | .data => cWrfData
  | .bytesel => cWrfBytesel
  | .oob => cWrfOob

/-- A frame, with a STATUS word that reports no error. -/
structure Frame where
  status : BitVec 16
  noError : (fUnmarshallWrfStatus status).error = false
  words : List (Kind × BitVec 16)

def Frame.queued (frame : Frame) : List FifoWord :=
  ⟨cWrfStatus, frame.status⟩ :: frame.words.map fun w => ⟨w.1.type, w.2⟩

/-- A word of the FIFO on the fabric. -/
def onFabric (w : FifoWord) : Word :=
  if w.type == cWrfBytesel then ⟨cWrfData, fSwapEndian16 littleEndian w.data, 0b10⟩
  else ⟨w.type, fSwapEndian16 littleEndian w.data, 0b11⟩

/-- `cycle` is a rising edge of `cyc`. -/
inductive Event where
  | cycle
  | word (w : Word)
  deriving DecidableEq, Repr

def seen (s : MinicTx) (i : TxIn) : List Event :=
  (Fabric.taken s.src i.srcStall).map .word ++
    if !s.srcCyc && (s.step littleEndian i).srcCyc then [.cycle] else []

def Frame.events (frame : Frame) : List Event :=
  .cycle :: frame.queued.map fun w => .word (onFabric littleEndian w)

/-! ### One frame -/

/-- What remains to be seen. -/
def owed (s : MinicTx) : List Event :=
  let queued := s.fifo.map fun w => .word (onFabric littleEndian w)
  match s.ntxState with
  | .idle => if s.txFifoEmpty then [] else .cycle :: queued
  | .status => queued
  | .packet => .word s.src.word :: queued
  | .flush =>
      .word s.src.word ::
        if s.ntxFlushLast then [] else .word (onFabric littleEndian s.ntxStored) :: queued
  | .endPacket => []

def Payload (w : FifoWord) : Prop := w.type ≠ cWrfStatus

/-- Before a frame at the head of the FIFO, or with nothing in it. -/
def Fresh (fifo : List FifoWord) : Prop :=
  ∀ head rest, fifo = head :: rest →
    head.type = cWrfStatus ∧ (fUnmarshallWrfStatus head.data).error = false ∧ ∀ w ∈ rest, Payload w

/-- At most one frame is queued, and the FIFO holds what is left of it. -/
structure Single (s : MinicTx) : Prop where
  rd : s.txFifoRd = (s.ntxState == .status || s.ntxState == .packet)
  cyc : s.srcCyc = (s.ntxState != .idle)
  stb : s.srcStb = (s.ntxState == .packet || s.ntxState == .flush)
  fresh : s.ntxState = .idle ∨ s.ntxState = .status → Fresh s.fifo
  begun : s.ntxState = .status → s.fifo ≠ []
  payload : s.ntxState = .packet ∨ s.ntxState = .flush → ∀ w ∈ s.fifo, Payload w
  last : s.ntxState = .flush → s.ntxFlushLast = true → s.fifo = []
  stored : s.ntxState = .flush → s.ntxFlushLast = false → Payload s.ntxStored
  done : s.ntxState = .endPacket → s.fifo = []

section Edge

variable {littleEndian} {s : MinicTx} {i : TxIn}

theorem payload_cases {w : FifoWord} (payload : Payload w) :
    w.type = cWrfData ∨ w.type = cWrfBytesel ∨ w.type = cWrfOob := by
  have all : ∀ t : BitVec 2, t ≠ cWrfStatus → t = cWrfData ∨ t = cWrfBytesel ∨ t = cWrfOob := by decide
  exact all w.type payload

theorem payload_ferror {head : FifoWord} {rest : List FifoWord} (fifo : s.fifo = head :: rest)
    (payload : Payload head) : s.txfFerror i = false ∧ s.txfFnew i = false := by
  have other : (head.type == cWrfStatus) = false := by simpa [Payload] using payload
  simp [txfFerror, txfFnew, txFifoQ, fifo, other]

/-- The next word goes onto the fabric. -/
theorem packet_sends (littleEndian : Bool) (go : i.srcStall = false) {head : FifoWord} {rest : List FifoWord}
    (fifo : s.fifo = head :: rest) (payload : Payload head) :
    ∃ adr sel, s.packetStep littleEndian i =
      { s with
        mcrTxIdle := false, ntxRstTsReady := false, srcCyc := true, ntxNewpacket := false, srcStb := true
        txFifoRd := true, ntxFlushLast := false, srcDat := fSwapEndian16 littleEndian head.data
        srcAdr := adr, srcSel := sel } ∧
      onFabric littleEndian head = ⟨adr, fSwapEndian16 littleEndian head.data, sel⟩ := by
  have quiet := payload_ferror (i := i) fifo payload
  have q : s.txFifoQ i = head := by simp [txFifoQ, fifo]
  have some : s.txFifoEmpty = false := by simp [txFifoEmpty, fifo]
  rcases payload_cases payload with type | type | type
  · exact ⟨cWrfData, 0b11, by simp [packetStep, q, some, go, quiet.1, type],
      by simp [onFabric, type, cWrfData, cWrfBytesel]⟩
  · exact ⟨cWrfData, 0b10, by simp [packetStep, q, some, go, quiet.1, type, cWrfData, cWrfBytesel],
      by simp [onFabric, type]⟩
  · exact ⟨cWrfOob, 0b11, by simp [packetStep, q, some, go, quiet.1, type, cWrfData, cWrfBytesel, cWrfOob],
      by simp [onFabric, type, cWrfOob, cWrfBytesel]⟩

/-- The word that was set aside goes onto the fabric. -/
theorem flush_sends (littleEndian : Bool) (go : i.srcStall = false) :
    ∃ adr dat sel, s.flushStep littleEndian i =
      { s with
        mcrTxIdle := false, ntxRstTsReady := false, srcCyc := true, ntxNewpacket := false
        srcAdr := adr, srcDat := dat, srcSel := sel, srcStb := !s.ntxFlushLast, txFifoRd := !s.ntxFlushLast
        ntxState := if s.ntxFlushLast then .endPacket else .packet } ∧
      (Payload s.ntxStored → onFabric littleEndian s.ntxStored = ⟨adr, dat, sel⟩) := by
  have kinds : ∀ t : BitVec 2,
      t = cWrfData ∨ t = cWrfOob ∨ t = cWrfBytesel ∨ t = cWrfStatus := by decide
  rcases kinds s.ntxStored.type with type | type | type | type
  · refine ⟨cWrfData, fSwapEndian16 littleEndian s.ntxStored.data, 0b11, ?_, ?_⟩
    · cases last : s.ntxFlushLast <;> simp [flushStep, go, type, last]
    · simp [onFabric, type, cWrfData, cWrfBytesel]
  · refine ⟨cWrfOob, fSwapEndian16 littleEndian s.ntxStored.data, 0b11, ?_, ?_⟩
    · cases last : s.ntxFlushLast <;> simp [flushStep, go, type, last]
    · simp [onFabric, type, cWrfOob, cWrfBytesel]
  · refine ⟨cWrfData, fSwapEndian16 littleEndian s.ntxStored.data, 0b10, ?_, ?_⟩
    · cases last : s.ntxFlushLast <;> simp [flushStep, go, type, last, cWrfData, cWrfOob, cWrfBytesel]
    · simp [onFabric, type]
  · refine ⟨s.srcAdr, s.srcDat, s.srcSel, ?_, fun payload => absurd type payload⟩
    cases last : s.ntxFlushLast <;>
      simp [flushStep, go, type, last, cWrfData, cWrfOob, cWrfBytesel, cWrfStatus]

/-- An edge keeps the shape and hands over what is due. -/
def Balanced (littleEndian : Bool) (s : MinicTx) (i : TxIn) : Prop :=
  Single (s.step littleEndian i) ∧
    s.owed littleEndian = s.seen littleEndian i ++ (s.step littleEndian i).owed littleEndian

variable (up : i.rstN = true) (single : Single s)
include up single

theorem idle_balanced (state : s.ntxState = .idle) : Balanced littleEndian s i := by
  have rd : s.txFifoRd = false := by simp [single.rd, state]
  have cyc : s.srcCyc = false := by simp [single.cyc, state]
  have fresh := single.fresh (.inl state)
  match fifo : s.fifo with
  | [] =>
      constructor
      · constructor <;> simp [step, fsmStep, up, state, idleStep, txFifoEmpty, fifo, rd, Fresh]
      · simp [owed, seen, step, fsmStep, up, state, idleStep, txFifoEmpty, fifo, src, Fabric.taken, cyc]
  | head :: rest =>
      rw [fifo] at fresh
      obtain ⟨type, noError, payload⟩ := fresh head rest rfl
      have fnew : s.txfFnew i = true := by simp [txfFnew, txFifoEmpty, txFifoQ, fifo, type, noError]
      cases start : i.mcrTxStart with
      | false =>
          constructor
          · constructor <;>
              simp [step, fsmStep, up, state, idleStep, txFifoEmpty, fifo, rd, fnew, start, fresh]
          · simp [owed, seen, step, fsmStep, up, state, idleStep, txFifoEmpty, fifo, src, Fabric.taken,
              cyc, fnew, start, rd]
      | true =>
          constructor
          · constructor <;>
              simp [step, fsmStep, up, state, idleStep, txFifoEmpty, fifo, rd, fnew, start, fresh]
          · simp [owed, seen, step, fsmStep, up, state, idleStep, txFifoEmpty, fifo, src, Fabric.taken,
              cyc, fnew, start, rd]

theorem status_balanced (state : s.ntxState = .status) : Balanced littleEndian s i := by
  have rd : s.txFifoRd = true := by simp [single.rd, state]
  have cyc : s.srcCyc = true := by simp [single.cyc, state]
  have stb : s.srcStb = false := by simp [single.stb, state]
  match fifo : s.fifo with
  | [] => exact absurd fifo (single.begun state)
  | head :: rest =>
      obtain ⟨type, noError, payload⟩ := single.fresh (.inr state) head rest fifo
      constructor
      · constructor <;> simp [step, fsmStep, up, state, statusStep, fifo, rd]
        exact payload
      · simp [owed, seen, step, fsmStep, up, state, statusStep, fifo, src, Fabric.taken, cyc, stb, rd,
          SourceOut.word, txFifoQ, onFabric, type, cWrfStatus, cWrfBytesel]

theorem packet_balanced (state : s.ntxState = .packet) : Balanced littleEndian s i := by
  have rd : s.txFifoRd = true := by simp [single.rd, state]
  have cyc : s.srcCyc = true := by simp [single.cyc, state]
  have stb : s.srcStb = true := by simp [single.stb, state]
  have payload := single.payload (.inl state)
  match fifo : s.fifo with
  | [] =>
      -- The word on the fabric is the last one.
      cases stall : i.srcStall with
      | false =>
          constructor
          · constructor <;> simp [step, fsmStep, up, state, packetStep, txFifoEmpty, fifo, stall]
          · simp [owed, seen, step, fsmStep, up, state, packetStep, txFifoEmpty, fifo, src, Fabric.taken, cyc,
              stb, stall]
      | true =>
          constructor
          · constructor <;> simp [step, fsmStep, up, state, packetStep, txFifoEmpty, fifo, stall]
          · simp [owed, seen, step, fsmStep, up, state, packetStep, txFifoEmpty, fifo, src, Fabric.taken, cyc,
              stb, stall, SourceOut.word]
  | head :: rest =>
      rw [fifo] at payload
      have first := payload head (by simp)
      have later : ∀ w ∈ rest, Payload w := fun w member => payload w (by simp [member])
      cases stall : i.srcStall with
      | false =>
          obtain ⟨adr, sel, stepped, word⟩ := packet_sends littleEndian stall fifo first
          constructor
          · constructor <;> simp [step, fsmStep, up, state, stepped, rd, fifo]
            exact later
          · simp [owed, seen, step, fsmStep, up, state, stepped, fifo, src, Fabric.taken, cyc, stb, stall, rd,
              SourceOut.word, word]
      | true =>
          have quiet := payload_ferror (i := i) fifo first
          constructor
          · constructor <;> simp [step, fsmStep, up, state, packetStep, txFifoEmpty, txFifoQ, fifo, stall, rd,
              first]
            exact later
          · simp [owed, seen, step, fsmStep, up, state, packetStep, txFifoEmpty, txFifoQ, fifo, src,
              Fabric.taken, cyc, stb, stall, rd, SourceOut.word]

theorem flush_balanced (state : s.ntxState = .flush) : Balanced littleEndian s i := by
  have rd : s.txFifoRd = false := by simp [single.rd, state]
  have cyc : s.srcCyc = true := by simp [single.cyc, state]
  have stb : s.srcStb = true := by simp [single.stb, state]
  have payload := single.payload (.inr state)
  cases stall : i.srcStall with
  | true =>
      constructor
      · constructor <;> simp [step, fsmStep, up, state, flushStep, stall, rd]
        · exact payload
        · exact single.last state
        · exact single.stored state
      · simp [owed, seen, step, fsmStep, up, state, flushStep, stall, src, Fabric.taken, cyc, stb, rd,
          SourceOut.word]
  | false =>
      obtain ⟨adr, dat, sel, stepped, word⟩ := flush_sends (s := s) littleEndian stall
      cases last : s.ntxFlushLast with
      | true =>
          have empty := single.last state last
          constructor
          · constructor <;> simp [step, fsmStep, up, state, stepped, rd, last, empty]
          · simp [owed, seen, step, fsmStep, up, state, stepped, stall, src, Fabric.taken, cyc, stb, last]
      | false =>
          have shown := word (single.stored state last)
          constructor
          · constructor <;> simp [step, fsmStep, up, state, stepped, rd, last]
            exact payload
          · simp [owed, seen, step, fsmStep, up, state, stepped, stall, src, Fabric.taken, cyc, stb, rd, last,
              SourceOut.word, shown]

theorem end_balanced (state : s.ntxState = .endPacket) : Balanced littleEndian s i := by
  have rd : s.txFifoRd = false := by simp [single.rd, state]
  have cyc : s.srcCyc = true := by simp [single.cyc, state]
  have stb : s.srcStb = false := by simp [single.stb, state]
  have empty := single.done state
  by_cases timedOut : s.ntxAckCount = 0#3 ∨ s.ntxTimeout = 0#8
  · constructor
    · constructor <;> simp [step, fsmStep, up, state, endPacketStep, timedOut, empty, Fresh]
    · simp [owed, seen, step, fsmStep, up, state, endPacketStep, timedOut, src, Fabric.taken, stb, empty,
        txFifoEmpty, cyc]
  · constructor
    · constructor <;> simp [step, fsmStep, up, state, endPacketStep, timedOut, rd, cyc, empty]
    · simp [owed, seen, step, fsmStep, up, state, endPacketStep, timedOut, src, Fabric.taken, stb, cyc]

theorem single_balanced (littleEndian : Bool) : Balanced littleEndian s i := by
  cases state : s.ntxState with
  | idle => exact idle_balanced up single state
  | status => exact status_balanced up single state
  | packet => exact packet_balanced up single state
  | flush => exact flush_balanced up single state
  | endPacket => exact end_balanced up single state

/-- The cycles without a stall that are still needed: the first two of a frame bring no word. -/
def due (littleEndian : Bool) (s : MinicTx) : Nat :=
  (s.owed littleEndian).length +
    if (s.ntxState == .idle || s.ntxState == .status) && !s.txFifoEmpty then 1 else 0

/-- `tx_start` is there whenever a new frame is at the head. -/
def Started (s : MinicTx) (i : TxIn) : Prop := s.txfFnew i = true → i.mcrTxStart = true

omit up single in
theorem seen_word (cyc : s.srcCyc = true) (stb : s.srcStb = true) :
    (s.seen littleEndian i).length = if i.srcStall then 0 else 1 := by
  cases stall : i.srcStall <;> simp [seen, src, Fabric.taken, cyc, stb, stall]

omit up single in
theorem packetStep_state (littleEndian : Bool) (i : TxIn) (state : s.ntxState = .packet) :
    (s.packetStep littleEndian i).ntxState = .packet ∨ (s.packetStep littleEndian i).ntxState = .flush ∨
      (s.packetStep littleEndian i).ntxState = .endPacket := by
  simp only [packetStep]
  split_ifs <;> simp [state]

omit up single in
theorem flushStep_state (littleEndian : Bool) (s : MinicTx) (i : TxIn) : (s.flushStep littleEndian i).ntxState =
    .packet ∨
    (s.flushStep littleEndian i).ntxState = .flush ∨ (s.flushStep littleEndian i).ntxState = .endPacket := by
  simp only [flushStep]
  split_ifs <;> simp

theorem due_busy (busy : s.ntxState = .packet ∨ s.ntxState = .flush) :
    due littleEndian (s.step littleEndian i) = due littleEndian s - if i.srcStall then 0 else 1 := by
  obtain ⟨-, balance⟩ := single_balanced up single littleEndian
  have cyc : s.srcCyc = true := by rcases busy with state | state <;> simp [single.cyc, state]
  have stb : s.srcStb = true := by rcases busy with state | state <;> simp [single.stb, state]
  have lengths := congrArg List.length balance
  rw [List.length_append, seen_word cyc stb] at lengths
  have state' : (s.step littleEndian i).ntxState = .packet ∨ (s.step littleEndian i).ntxState = .flush ∨
      (s.step littleEndian i).ntxState = .endPacket := by
    rcases busy with state | state
    · simpa [step, fsmStep, up, state] using packetStep_state littleEndian i state
    · simpa [step, fsmStep, up, state] using flushStep_state littleEndian s i
  have here : due littleEndian s = (s.owed littleEndian).length := by
    rcases busy with state | state <;> simp [due, state]
  have there : due littleEndian (s.step littleEndian i) = ((s.step littleEndian i).owed littleEndian).length := by
    rcases state' with state | state | state <;> simp [due, state]
  rw [here, there, lengths]
  omega

theorem due_edge (littleEndian : Bool) (started : Started s i) :
    due littleEndian (s.step littleEndian i) ≤ due littleEndian s - if i.srcStall then 0 else 1 := by
  cases state : s.ntxState with
  | packet => exact (due_busy up single (.inl state)).le
  | flush => exact (due_busy up single (.inr state)).le
  | endPacket =>
      have empty := single.done state
      have rd : s.txFifoRd = false := by simp [single.rd, state]
      by_cases timedOut : s.ntxAckCount = 0#3 ∨ s.ntxTimeout = 0#8 <;>
        simp [due, owed, step, fsmStep, up, state, endPacketStep, timedOut, empty, txFifoEmpty]
  | status =>
      have rd : s.txFifoRd = true := by simp [single.rd, state]
      match fifo : s.fifo with
      | [] => exact absurd fifo (single.begun state)
      | head :: rest =>
          simp [due, owed, step, fsmStep, up, state, statusStep, fifo, rd, txFifoEmpty]
          split <;> omega
  | idle =>
      have rd : s.txFifoRd = false := by simp [single.rd, state]
      match fifo : s.fifo with
      | [] => simp [due, owed, step, fsmStep, up, state, idleStep, txFifoEmpty, fifo]
      | head :: rest =>
          obtain ⟨type, noError, payload⟩ := single.fresh (.inl state) head rest fifo
          have fnew : s.txfFnew i = true := by simp [txfFnew, txFifoEmpty, txFifoQ, fifo, type, noError]
          simp [due, owed, step, fsmStep, up, state, idleStep, fifo, rd, txFifoEmpty, fnew, started fnew]
          split <;> omega

end Edge

/-- One frame, or none, is sent as it was queued. -/
theorem owed_run {littleEndian : Bool} {s : MinicTx} (cycles : List TxIn) (ups : ∀ i ∈ cycles, i.rstN = true)
    (started : Along (step littleEndian) Started s cycles) (single : Single s) :
    s.owed littleEndian = collect (step littleEndian) (seen littleEndian) s cycles ++
        (run (step littleEndian) s cycles).owed littleEndian ∧
      due littleEndian (run (step littleEndian) s cycles) ≤
        due littleEndian s - cycles.countP fun i => !i.srcStall := by
  induction cycles generalizing s with
  | nil => simp
  | cons i cycles ih =>
      have up := ups i (by simp)
      obtain ⟨single', balance⟩ := single_balanced up single littleEndian
      obtain ⟨later, length⟩ := ih (fun j member => ups j (by simp [member])) started.2 single'
      have here := due_edge up single littleEndian started.1
      constructor
      · rw [balance, later]
        simp
      · rw [run_cons, List.countP_cons]
        cases stall : i.srcStall with
        | false =>
            rw [stall] at here
            simp only [Bool.false_eq_true, if_false, Bool.not_false, if_true] at here ⊢
            omega
        | true =>
            rw [stall] at here
            simp only [if_true, Bool.not_true, Bool.false_eq_true, if_false] at here ⊢
            omega

/-! ### Several frames -/

def statuses (words : List FifoWord) : Nat := words.countP (·.type == cWrfStatus)

/-- The frames that can still start: behind `TX_IDLE` the STATUS word is spent. -/
def startable (s : MinicTx) : Nat := statuses (if s.ntxState == .status then s.fifo.tail else s.fifo)

def starts (events : List Event) : Nat := events.countP (· == .cycle)

/-- `cyc` is there from the STATUS word to the last acknowledge. -/
structure Cycling (s : MinicTx) : Prop where
  cyc : s.ntxState ≠ .idle → s.srcCyc = true
  rd : s.ntxState = .status ∨ s.ntxState = .packet → s.txFifoRd = true

theorem statuses_tail (words : List FifoWord) : statuses words.tail ≤ statuses words := by
  cases words with
  | nil => exact Nat.le_refl _
  | cons head rest => simp [statuses, List.countP_cons]

section Starts

variable {littleEndian : Bool} {s : MinicTx} {i : TxIn}

theorem starts_words (words : List Word) : starts (words.map .word) = 0 := by
  simp [starts, List.countP_eq_zero]

theorem seen_starts : starts (s.seen littleEndian i) =
    if !s.srcCyc && (s.step littleEndian i).srcCyc then 1 else 0 := by
  have none := starts_words (Fabric.taken s.src i.srcStall)
  rw [starts] at none
  rw [seen, starts, List.countP_append, none]
  split <;> simp

theorem fnew_head (fnew : s.txfFnew i = true) :
    ∃ head rest, s.fifo = head :: rest ∧ head.type = cWrfStatus := by
  match fifo : s.fifo with
  | [] => simp [txfFnew, txFifoEmpty, fifo] at fnew
  | head :: rest =>
      refine ⟨head, rest, rfl, ?_⟩
      simp only [txfFnew, txFifoQ, fifo, List.headD_cons, Bool.and_eq_true, beq_iff_eq] at fnew
      exact fnew.1.2

variable (up : i.rstN = true)
include up

theorem cycling_edge (littleEndian : Bool) (cycling : Cycling s) : Cycling (s.step littleEndian i) := by
  have moved : Cycling (s.fsmStep littleEndian i) := by
    simp only [fsmStep, up, Bool.not_true, Bool.false_eq_true, if_false]
    cases state : s.ntxState with
    | idle =>
        unfold idleStep
        extract_lets next
        have held : next.ntxState = .idle := state
        split_ifs <;> constructor <;> simp [held]
    | status => constructor <;> simp [statusStep]
    | packet =>
        unfold packetStep
        extract_lets next q sends payload
        have cyc : next.srcCyc = true ∧ payload.srcCyc = true ∧ payload.txFifoRd = true := ⟨rfl, rfl, rfl⟩
        split_ifs <;> constructor <;> simp [cyc]
    | flush =>
        unfold flushStep
        extract_lets next stored loaded
        have cyc : loaded.srcCyc = true := by
          simp only [loaded, next, apply_ite MinicTx.srcCyc, ite_self]
        split_ifs <;> constructor <;> simp [cyc]
    | endPacket =>
        have cyc : s.srcCyc = true := cycling.cyc (by simp [state])
        unfold endPacketStep
        extract_lets timeoutIsZero next
        have held : next.ntxState = .endPacket ∧ next.srcCyc = true := ⟨state, cyc⟩
        split_ifs <;> constructor <;> simp [held]
  exact ⟨moved.cyc, moved.rd⟩

theorem fifo_edge : (s.step littleEndian i).fifo = if s.txFifoRd then s.fifo.tail else s.fifo := by
  simp [step, up]

theorem status_behind_idle (littleEndian : Bool) (busy : s.ntxState ≠ .idle) :
    (s.step littleEndian i).ntxState ≠ .status := by
  cases state : s.ntxState with
  | idle => exact absurd state busy
  | status => simp [step, fsmStep, up, state, statusStep]
  | packet =>
      rcases packetStep_state littleEndian i state with next | next | next <;>
        simp [step, fsmStep, up, state, next]
  | flush =>
      rcases flushStep_state littleEndian s i with next | next | next <;>
        simp [step, fsmStep, up, state, next]
  | endPacket =>
      simp only [step, fsmStep, up, state, endPacketStep]
      split_ifs <;> simp_all

/-- A busy machine starts nothing; it may take a STATUS word all the same. -/
theorem busy_starts (littleEndian : Bool) (cycling : Cycling s) (busy : s.ntxState ≠ .idle) :
    starts (s.seen littleEndian i) = 0 ∧ startable (s.step littleEndian i) =
      if s.ntxState == .status then startable s
      else statuses (if s.txFifoRd then s.fifo.tail else s.fifo) := by
  constructor
  · rw [seen_starts, cycling.cyc busy]
    rfl
  · have next := status_behind_idle up littleEndian busy
    rw [startable, if_neg (by simpa using next), fifo_edge up]
    by_cases state : s.ntxState = .status
    · simp [startable, state, cycling.rd (.inl state)]
    · simp [state]

/-- A frame that starts takes a STATUS word out of the FIFO. -/
theorem starts_edge (littleEndian : Bool) (cycling : Cycling s) :
    starts (s.seen littleEndian i) + startable (s.step littleEndian i) ≤ startable s := by
  have popped : statuses (if s.txFifoRd then s.fifo.tail else s.fifo) ≤ statuses s.fifo := by
    split
    · exact statuses_tail _
    · exact Nat.le_refl _
  by_cases busy : s.ntxState = .idle
  · have here : startable s = statuses s.fifo := by simp [startable, busy]
    by_cases start : (!s.txFifoEmpty && s.txfFnew i && i.mcrTxStart) = true
    · simp only [Bool.and_eq_true, Bool.not_eq_true'] at start
      obtain ⟨⟨some, fnew⟩, start⟩ := start
      obtain ⟨head, rest, fifo, type⟩ := fnew_head fnew
      have next : (s.step littleEndian i).ntxState = .status := by
        simp [step, fsmStep, up, busy, idleStep, some, fnew, start]
      have fewer : startable (s.step littleEndian i) ≤ statuses rest := by
        rw [startable, next, fifo_edge up, fifo]
        cases s.txFifoRd with
        | false => exact Nat.le_refl _
        | true => exact statuses_tail rest
      have head_counts : statuses s.fifo = statuses rest + 1 := by
        simp [statuses, fifo, type]
      rw [seen_starts, here, head_counts]
      split <;> omega
    · have silent : (s.step littleEndian i).srcCyc = false ∧ (s.step littleEndian i).ntxState = .idle := by
        simp only [step, fsmStep, up, busy, idleStep]
        split_ifs <;> simp_all
      rw [seen_starts, silent.1, here, startable, silent.2, fifo_edge up]
      simpa using popped
  · obtain ⟨none, left⟩ := busy_starts up littleEndian cycling busy
    rw [none, left, Nat.zero_add]
    split
    · exact Nat.le_refl _
    next other =>
      rw [startable, if_neg other]
      exact popped

/-- Inside a frame, with the STATUS word of another one behind it. -/
structure Ahead (s : MinicTx) : Prop extends Cycling s where
  state : s.ntxState = .status ∨ s.ntxState = .packet ∨
    (s.ntxState = .flush ∧ s.ntxFlushLast = false ∧ s.txFifoRd = false)
  next : ∃ words head later, (if s.ntxState == .status then s.fifo.tail else s.fifo) = words ++ head :: later ∧
    (∀ w ∈ words, Payload w) ∧ head.type = cWrfStatus

omit up in
theorem Ahead.startable_pos {s : MinicTx} (ahead : Ahead s) : 1 ≤ startable s := by
  obtain ⟨words, head, later, fifo, -, type⟩ := ahead.next
  rw [startable, fifo, statuses, List.countP_append, List.countP_cons, type, beq_self_eq_true, if_pos rfl]
  omega

/-- The frame goes on, or the STATUS word behind it is gone. -/
theorem ahead_edge (littleEndian : Bool) (ahead : Ahead s) :
    (Ahead (s.step littleEndian i) ∧ startable (s.step littleEndian i) = startable s) ∨
      startable (s.step littleEndian i) + 1 ≤ startable s := by
  have cycling : Cycling (s.step littleEndian i) := cycling_edge up littleEndian ahead.toCycling
  obtain ⟨words, head, later, fifo, payload, type⟩ := ahead.next
  rcases ahead.state with state | state | ⟨state, last, rd⟩
  · have next : (s.step littleEndian i).ntxState = .packet := by simp [step, fsmStep, up, state, statusStep]
    have popped : (s.step littleEndian i).fifo = words ++ head :: later := by
      simpa [fifo_edge up, ahead.rd (.inl state), state] using fifo
    refine .inl ⟨⟨cycling, .inr (.inl next), words, head, later, ?_, payload, type⟩, ?_⟩
    · simp [next, popped]
    · simp only [startable, next, popped, fifo]
      rfl
  · rw [if_neg (by simp [state])] at fifo
    have popped : (s.step littleEndian i).fifo = s.fifo.tail := by simp [fifo_edge up, ahead.rd (.inr state)]
    have left : startable (s.step littleEndian i) = statuses s.fifo.tail := by
      have next := status_behind_idle up littleEndian (by simp [state] : s.ntxState ≠ .idle)
      rw [startable, if_neg (by simpa using next), popped]
    have here : startable s = statuses s.fifo := by simp [startable, state]
    match words with
    | [] =>
        -- The STATUS word is read like any other.
        refine .inr ?_
        rw [left, here, fifo]
        simp [statuses, type]
    | w :: words =>
        have first := payload w (by simp)
        have kept : startable (s.step littleEndian i) = startable s := by
          have other : (w.type == cWrfStatus) = false := by simpa [Payload] using first
          rw [left, here, fifo]
          simp [statuses, List.countP_cons, other]
        have shape : (s.step littleEndian i).fifo = words ++ head :: later := by simp [popped, fifo]
        have later_payload : ∀ v ∈ words, Payload v := fun v member => payload v (by simp [member])
        refine .inl ⟨?_, kept⟩
        cases stall : i.srcStall with
        | false =>
            obtain ⟨adr, sel, stepped, -⟩ := packet_sends littleEndian stall fifo first
            have next : (s.step littleEndian i).ntxState = .packet := by simp [step, fsmStep, up, state, stepped]
            exact ⟨cycling, .inr (.inl next), words, head, later, by simp [next, shape], later_payload, type⟩
        | true =>
            have next : (s.step littleEndian i).ntxState = .flush ∧
                (s.step littleEndian i).ntxFlushLast = false ∧ (s.step littleEndian i).txFifoRd = false := by
              simp [step, fsmStep, up, state, packetStep, stall, txFifoEmpty, fifo]
            exact ⟨cycling, .inr (.inr next), words, head, later, by simp [next.1, shape], later_payload, type⟩
  · rw [if_neg (by simp [state])] at fifo
    have same : (s.step littleEndian i).fifo = s.fifo := by simp [fifo_edge up, rd]
    have state' : (s.step littleEndian i).ntxState = .packet ∨ ((s.step littleEndian i).ntxState = .flush ∧
        (s.step littleEndian i).ntxFlushLast = false ∧ (s.step littleEndian i).txFifoRd = false) := by
      cases stall : i.srcStall with
      | false =>
          obtain ⟨adr, dat, sel, stepped, -⟩ := flush_sends (s := s) littleEndian stall
          exact .inl (by simp [step, fsmStep, up, state, stepped, last])
      | true => exact .inr (by simp [step, fsmStep, up, state, flushStep, stall, last])
    have busy : (s.step littleEndian i).ntxState ≠ .status := by
      rcases state' with next | next <;> simp [next]
    refine .inl ⟨⟨cycling, .inr state', words, head, later, ?_, payload, type⟩, ?_⟩
    · rw [if_neg (by simpa using busy), same, fifo]
    · rw [startable, startable, if_neg (by simpa using busy), if_neg (by simp [state]), same]

end Starts

section Runs

variable {littleEndian : Bool} {s : MinicTx}

theorem starts_append (first second : List Event) : starts (first ++ second) = starts first + starts second :=
  List.countP_append

theorem cycling_run (littleEndian : Bool) (cycles : List TxIn) (ups : ∀ i ∈ cycles, i.rstN = true)
    (cycling : Cycling s) :
    starts (collect (step littleEndian) (seen littleEndian) s cycles) ≤ startable s := by
  induction cycles generalizing s with
  | nil => exact Nat.zero_le _
  | cons i cycles ih =>
      have up := ups i (by simp)
      have here := starts_edge up littleEndian cycling
      have later := ih (fun j member => ups j (by simp [member])) (cycling_edge up littleEndian cycling)
      rw [collect_cons, starts_append]
      omega

theorem ahead_run (littleEndian : Bool) (cycles : List TxIn) (ups : ∀ i ∈ cycles, i.rstN = true) (ahead : Ahead s) :
    starts (collect (step littleEndian) (seen littleEndian) s cycles) + 1 ≤ startable s := by
  induction cycles generalizing s with
  | nil => exact ahead.startable_pos
  | cons i cycles ih =>
      have up := ups i (by simp)
      have ups' : ∀ j ∈ cycles, j.rstN = true := fun j member => ups j (by simp [member])
      have busy : s.ntxState ≠ .idle := by
        rcases ahead.state with state | state | state <;> simp [state]
      obtain ⟨silent, -⟩ := busy_starts up littleEndian ahead.toCycling busy
      rw [collect_cons, starts_append, silent, Nat.zero_add]
      rcases ahead_edge up littleEndian ahead with ⟨next, same⟩ | fewer
      · have later := ih ups' next
        omega
      · have later := cycling_run littleEndian cycles ups' (cycling_edge up littleEndian ahead.toCycling)
        omega

/-- Nothing is under way, and the FIFO holds the frames. -/
structure Ready (frames : List Frame) (s : MinicTx) : Prop where
  state : s.ntxState = .idle
  rd : s.txFifoRd = false
  cyc : s.srcCyc = false
  stb : s.srcStb = false
  fifo : s.fifo = frames.flatMap Frame.queued

theorem Frame.queued_payload (frame : Frame) : ∀ w ∈ frame.queued.tail, Payload w := by
  intro w member
  obtain ⟨⟨kind, data⟩, -, rfl⟩ := List.mem_map.1 member
  cases kind <;> simp [Payload, Kind.type, cWrfData, cWrfBytesel, cWrfOob, cWrfStatus]

theorem Frame.statuses_words (frame : Frame) : statuses frame.queued.tail = 0 := by
  rw [statuses, List.countP_eq_zero]
  intro w member
  simpa [Payload] using frame.queued_payload w member

theorem statuses_frames (frames : List Frame) : statuses (frames.flatMap Frame.queued) = frames.length := by
  induction frames with
  | nil => rfl
  | cons frame frames ih =>
      have first : statuses frame.queued = 1 := by
        have split : statuses frame.queued = statuses frame.queued.tail + 1 := by
          simp [Frame.queued, statuses]
        rw [split, frame.statuses_words]
      rw [List.flatMap_cons, statuses, List.countP_append]
      rw [statuses] at first ih
      rw [first, ih, List.length_cons, Nat.add_comm]

/-- With two frames or more in the FIFO fewer cycles start than there are frames. -/
theorem ready_run (littleEndian : Bool) {first second : Frame} {more : List Frame} (cycles : List TxIn)
    (ups : ∀ i ∈ cycles, i.rstN = true) (ready : Ready (first :: second :: more) s) :
    starts (collect (step littleEndian) (seen littleEndian) s cycles) + 1 ≤ more.length + 2 := by
  induction cycles generalizing s with
  | nil => simp [starts]
  | cons i cycles ih =>
      have up := ups i (by simp)
      have ups' : ∀ j ∈ cycles, j.rstN = true := fun j member => ups j (by simp [member])
      have content : s.fifo = ⟨cWrfStatus, first.status⟩ ::
          (first.queued.tail ++ (second :: more).flatMap Frame.queued) := by
        rw [ready.fifo]
        rfl
      have some : s.txFifoEmpty = false := by simp [txFifoEmpty, content]
      have fnew : s.txfFnew i = true := by simp [txfFnew, txFifoQ, some, content, first.noError]
      rw [collect_cons, starts_append, seen_starts]
      cases start : i.mcrTxStart with
      | false =>
          have next : Ready (first :: second :: more) (s.step littleEndian i) := by
            constructor <;>
              simp [step, fsmStep, up, ready.state, idleStep, some, fnew, start, ready.rd, ready.fifo]
          have later := ih ups' next
          rw [next.cyc]
          simpa using later
      | true =>
          have next : (s.step littleEndian i).ntxState = .status ∧ (s.step littleEndian i).srcCyc = true ∧
              (s.step littleEndian i).txFifoRd = true := by
            simp [step, fsmStep, up, ready.state, idleStep, some, fnew, start]
          have same : (s.step littleEndian i).fifo = s.fifo := by simp [step, up, ready.rd]
          have left : (if (s.step littleEndian i).ntxState == .status then (s.step littleEndian i).fifo.tail
              else (s.step littleEndian i).fifo) =
              first.queued.tail ++ (second :: more).flatMap Frame.queued := by
            simp [next.1, same, content]
          have ahead : Ahead (s.step littleEndian i) :=
            ⟨⟨fun _ => next.2.1, fun _ => next.2.2⟩, .inl next.1, first.queued.tail,
              ⟨cWrfStatus, second.status⟩, _, left, first.queued_payload, rfl⟩
          have words := first.statuses_words
          have count : startable (s.step littleEndian i) = more.length + 1 := by
            have others := statuses_frames (second :: more)
            rw [startable, left, statuses, List.countP_append]
            rw [statuses] at words others
            rw [words, others, Nat.zero_add, List.length_cons]
          have later := ahead_run littleEndian cycles ups' ahead
          rw [ready.cyc, next.2.1]
          simp only [Bool.not_false, Bool.and_self, if_true]
          omega

theorem starts_frames (frames : List Frame) :
    starts (frames.flatMap (Frame.events littleEndian)) = frames.length := by
  induction frames with
  | nil => rfl
  | cons frame frames ih =>
      have words : starts (frame.queued.map fun w => .word (onFabric littleEndian w)) = 0 := by
        have none := starts_words (frame.queued.map (onFabric littleEndian))
        rwa [List.map_map] at none
      have one : starts (frame.events littleEndian) = 1 := by
        rw [Frame.events, starts, List.countP_cons]
        rw [starts] at words
        rw [words]
        rfl
      rw [List.flatMap_cons, starts_append, one, ih, List.length_cons, Nat.add_comm]

theorem Ready.single {frames : List Frame} (ready : Ready frames s) (fresh : Fresh s.fifo) : Single s := by
  constructor <;> simp [ready.state, ready.rd, ready.cyc, ready.stb, fresh]

/-- The fabric carries the queued frames, each in a cycle of its own and word by word, exactly if
there is no more than one. -/
theorem frames_sent_iff (frames : List Frame) (cycles : List TxIn) (ready : Ready frames s)
    (ups : ∀ i ∈ cycles, i.rstN = true) (started : Along (step littleEndian) Started s cycles)
    (long : (frames.flatMap Frame.queued).length + 2 ≤ cycles.countP fun i => !i.srcStall) :
    collect (step littleEndian) (seen littleEndian) s cycles = frames.flatMap (Frame.events littleEndian) ↔
      frames.length ≤ 1 := by
  match frames with
  | first :: second :: more =>
      refine iff_of_false ?_ (by simp)
      intro sent
      have few := ready_run littleEndian cycles ups ready
      rw [sent, starts_frames] at few
      simp only [List.length_cons] at few
      omega
  | [] =>
      have single : Single s := ready.single (by simp [ready.fifo, Fresh])
      obtain ⟨kept, -⟩ := owed_run cycles ups started single
      have none : s.owed littleEndian = [] := by simp [owed, ready.state, txFifoEmpty, ready.fifo]
      rw [none] at kept
      exact iff_of_true (List.append_eq_nil_iff.1 kept.symm).1 (by simp)
  | [frame] =>
      have content : s.fifo = frame.queued := by simpa using ready.fifo
      have single : Single s := by
        apply ready.single
        intro head rest fifo
        rw [content] at fifo
        obtain ⟨rfl, rfl⟩ := List.cons.inj fifo
        exact ⟨rfl, frame.noError, frame.queued_payload⟩
      obtain ⟨kept, length⟩ := owed_run cycles ups started single
      have all : s.owed littleEndian = frame.events littleEndian := by
        simp [owed, ready.state, txFifoEmpty, content, Frame.events, Frame.queued]
      have needed : due littleEndian s = frame.queued.length + 2 := by
        simp [due, all, ready.state, txFifoEmpty, content, Frame.events, Frame.queued]
      rw [List.flatMap_singleton] at long
      have none : (run (step littleEndian) s cycles).owed littleEndian = [] := by
        apply List.eq_nil_of_length_eq_zero
        rw [due] at length
        omega
      rw [none, List.append_nil, all] at kept
      exact iff_of_true (by simpa using kept.symm) (by simp)

end Runs

instance (s : MinicTx) (i : TxIn) : Decidable (Started s i) := inferInstanceAs (Decidable (_ → _))

def oddFrame : Frame := ⟨0x0100, by decide, [(.data, 0x1234), (.bytesel, 0x5600), (.oob, 0x1007)]⟩

def shortFrame : Frame := ⟨0x0200, by decide, [(.data, 0xabcd)]⟩

/-- The sink stalls now and then and acknowledges what it takes a cycle later. -/
def stalling (stalls : List Bool) : List TxIn :=
  stalls.map fun stall => { srcStall := stall, srcAck := !stall, mcrTxStart := true }

theorem frames_sent_one :
    collect (step true) (seen true) { fifo := oddFrame.queued }
      (stalling [false, true, false, true, true, false, false, true, false, false]) =
      oddFrame.events true := by
  have sent := (frames_sent_iff [oddFrame]
    (stalling [false, true, false, true, true, false, false, true, false, false])
    ⟨rfl, rfl, rfl, rfl, rfl⟩ (by decide) (by decide) (by decide) :
      collect (step true) (seen true) { fifo := oddFrame.queued } _ = _ ↔ _).2 (by decide)
  simpa using sent

def twoFrames : MinicTx := { fifo := oddFrame.queued ++ shortFrame.queued }

/-- Of two frames in the FIFO the second one is lost; if the sink stalls the last word of the
first one, its words follow in the same cycle, behind a second copy of that word. -/
theorem second_frame_lost : Ready [oddFrame, shortFrame] twoFrames ∧
    Along (step false) Started twoFrames (stalling (List.replicate 20 false)) ∧
    collect (step false) (seen false) twoFrames (stalling (List.replicate 20 false)) =
      oddFrame.events false ∧
    collect (step false) (seen false) twoFrames
      (stalling (List.replicate 5 false ++ [true] ++ List.replicate 20 false)) =
      oddFrame.events false ++
        [.word (onFabric false ⟨cWrfOob, 0x1007⟩), .word (onFabric false ⟨cWrfData, 0xabcd⟩)] ∧
    [oddFrame, shortFrame].flatMap (Frame.events false) =
      oddFrame.events false ++ [.cycle, .word (onFabric false ⟨cWrfStatus, 0x0200⟩),
        .word (onFabric false ⟨cWrfData, 0xabcd⟩)] := by
  refine ⟨⟨rfl, rfl, rfl, rfl, rfl⟩, ?_⟩
  decide +kernel

end MinicTx

end WrCores.MiniNic
