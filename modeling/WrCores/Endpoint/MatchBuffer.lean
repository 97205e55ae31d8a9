import WrCores.Fabric.Pkg
import WrCores.Genrams.ShiftregFifo
import WrCores.Endpoint.RxBuffer

/-!
The verdicts of the packet filter in ep_rx_path.vhd: the process that sets `mbuf_we`, the match buffer,
the receive buffer and ep_rx_status_reg_insert.vhd behind it, with the packet filter enabled and no
early match. The outputs of the packet filter, `done` in the system clock domain, are inputs, and so is
the fabric in front of the receive buffer.
-/

namespace WrCores.Endpoint

open Genrams

/-- The bits of a word of the match buffer. -/
structure MatchEntry where
  isHp : Bool := false
  isPause : Bool := false
  pfDrop : Bool := false
  pfClass : BitVec 8 := 0
  deriving DecidableEq, Repr

inductive StatusState where
  | waitFrame | waitMbuf | genStatus
  deriving DecidableEq, Repr

structure StatusInsert where
  state : StatusState := .waitFrame
  dreqMask : Bool := true
  sreg : Fabric.StatusReg := {}
  rmonPfilterDrop : Bool := false
  deriving DecidableEq, Repr

structure StatusIn where
  snkFab : InternalFabric
  srcDreq : Bool
  mbufValid : Bool
  mbuf : MatchEntry
  deriving DecidableEq, Repr

namespace StatusInsert

def passes (entry : MatchEntry) : Bool := !entry.pfDrop && !entry.isPause

/-- `mbuf_ack_o`. -/
def mbufAck (s : StatusInsert) (i : StatusIn) : Bool := i.mbufValid && s.state == .waitMbuf

def snkDreq (s : StatusInsert) (i : StatusIn) : Bool := i.srcDreq && s.dreqMask && !i.snkFab.sof

def srcFab (s : StatusInsert) (i : StatusIn) : InternalFabric :=
  let embedStatus := s.state == .genStatus
  { i.snkFab with
    data := if embedStatus then Fabric.fMarshallWrfStatus s.sreg else i.snkFab.data
    addr := if embedStatus then Fabric.cWrfStatus else i.snkFab.addr
    dvalid := i.snkFab.dvalid || (embedStatus && i.srcDreq)
    sof := i.mbufValid && s.state == .waitMbuf && passes i.mbuf }

/-- The process `p_gen_status`. -/
def step (s : StatusInsert) (i : StatusIn) : StatusInsert :=
  match s.state with
  | .waitFrame =>
      if i.snkFab.sof then { s with rmonPfilterDrop := false, state := .waitMbuf, dreqMask := false }
      else { s with rmonPfilterDrop := false }
  | .waitMbuf =>
      if i.mbufValid then
        { state := if passes i.mbuf then .genStatus else .waitFrame
          dreqMask := true
          rmonPfilterDrop := i.mbuf.pfDrop
          sreg := { s.sreg with
            matchClass := i.mbuf.pfClass, isHp := i.mbuf.isHp, hasCrc := false, hasSmac := true, error := false } }
      else { s with rmonPfilterDrop := false }
  | .genStatus =>
      if i.srcDreq then { s with rmonPfilterDrop := false, state := .waitFrame, dreqMask := true }
      else { s with rmonPfilterDrop := false }

end StatusInsert

structure RxMatch where
  mbufWe : Bool := false
  mbuf : ShiftregFifo MatchEntry
  buffer : RxBuffer := {}
  status : StatusInsert := {}

structure RxMatchIn where
  snkFab : InternalFabric := {}
  pfilterDone : Bool := false
  pfilterDrop : Bool := false
  pfilterPclass : BitVec 8 := 0
  qAfull : Bool := false
  qAempty : Bool := true
  srcDreq : Bool := true
  deriving DecidableEq, Repr

namespace RxMatch

/-- The size of the match buffer. -/
def gSize : Nat := 16

/-- After reset; `fill` is what the match buffer happens to hold. -/
def reset (fill : MatchEntry) : RxMatch := { mbuf := .reset fill }

/-- `d_i` of the match buffer. -/
def mbufD (i : RxMatchIn) : MatchEntry := { pfDrop := i.pfilterDrop, pfClass := i.pfilterPclass }

def statusIn (s : RxMatch) (i : RxMatchIn) : StatusIn where
  snkFab := s.buffer.srcFab
  srcDreq := i.srcDreq
  mbufValid := s.mbuf.qValidO
  mbuf := s.mbuf.qO

def mbufRd (s : RxMatch) (i : RxMatchIn) : Bool := s.status.mbufAck (s.statusIn i)

def mbufFull (s : RxMatch) : Bool := s.mbuf.pointerFull gSize

def bufferIn (s : RxMatch) (i : RxMatchIn) : RxBufferIn where
  snkFab := i.snkFab
  srcDreq := s.status.snkDreq (s.statusIn i)
  dropReq := s.mbufWe
  qAfull := i.qAfull
  qAempty := i.qAempty

def step (s : RxMatch) (i : RxMatchIn) : RxMatch where
  mbufWe :=
    if i.pfilterDone && !s.buffer.dropped then true
    else if s.mbufRd i || !s.mbufFull then false
    else s.mbufWe
  mbuf := s.mbuf.step gSize (mbufD i) s.mbufWe (s.mbufRd i)
  buffer := s.buffer.step (s.bufferIn i)
  status := s.status.step (s.statusIn i)

end RxMatch

end WrCores.Endpoint
