import WrCores.Endpoint.RxVlan
import WrCores.Endpoint.RxBuffer

/-!
ep_rtu_header_extract.vhd behind the VLAN unit and in front of the receive buffer, as ep_rx_path
connects them. The buffer always asks for words, so the VLAN unit never stalls; there are no pause
frames. `macs` are the six words of `dmac` and `smac`.
-/

namespace WrCores.Endpoint

open Clocked

/-- `t_ep_internal_rtu_request` without its hash, which is zero. -/
structure RtuRequest where
  dmac : BitVec 48
  smac : BitVec 48
  vid : BitVec 12
  hasVid : Bool
  prio : BitVec 3
  hasPrio : Bool
  deriving DecidableEq, Repr

structure RtuHeader where
  hdrOffset : BitVec 12 := 1
  inPacket : Bool := false
  inHeader : Bool := false
  validBasic : Bool := false
  abort : Bool := false
  rmonDrpAtRtuFull : Bool := false
  macs : Fin 6 → BitVec 16 := fun _ => 0

structure RtuIn where
  snkFab : InternalFabric
  rtuFull : Bool
  rxbufFull : Bool
  isPause : Bool
  tagDone : Bool
  isTagged : Bool

namespace RtuHeader

def validOut (s : RtuHeader) (i : RtuIn) : Bool :=
  if i.isTagged then s.validBasic && i.tagDone && !i.isPause else s.validBasic && !i.isPause

/-- `rtu_rq_valid_o`. -/
def rqValid (s : RtuHeader) (i : RtuIn) : Bool := s.validOut i && !i.snkFab.error

def srcFab (i : RtuIn) : InternalFabric := { i.snkFab with sof := i.snkFab.sof && !i.rtuFull }

/-- The processes `p_hdr_offset_sreg` and `p_gen_rtu_request`. -/
def step (s : RtuHeader) (i : RtuIn) : RtuHeader where
  hdrOffset := if i.snkFab.sof then 1 else if i.snkFab.dvalid then s.hdrOffset <<< 1 else s.hdrOffset
  rmonDrpAtRtuFull := i.snkFab.sof && i.rtuFull
  inPacket :=
    if (i.snkFab.eof && !i.snkFab.sof) || i.snkFab.error then false
    else s.inPacket || (i.snkFab.sof && !i.rtuFull && !i.rxbufFull)
  inHeader :=
    if i.snkFab.error || s.validOut i then false
    else s.inHeader || (i.snkFab.sof && !i.rtuFull && !i.rxbufFull)
  macs k := if s.hdrOffset.getLsbD k && i.snkFab.dvalid then i.snkFab.data else s.macs k
  validBasic :=
    if i.snkFab.dvalid && s.hdrOffset.getLsbD 6 && s.inPacket then true
    else if s.validOut i || i.snkFab.error then false
    else s.validBasic
  abort := s.inPacket && !s.inHeader && i.snkFab.error && !s.abort

def dmac (s : RtuHeader) : BitVec 48 := s.macs 0 ++ s.macs 1 ++ s.macs 2

def smac (s : RtuHeader) : BitVec 48 := s.macs 3 ++ s.macs 4 ++ s.macs 5

end RtuHeader

/-- The three units in a row. -/
structure RxHead where
  vlan : VlanUnit := {}
  rtu : RtuHeader := {}
  buffer : RxBuffer := {}

structure RxHeadIn where
  snkFab : InternalFabric := {}
  rtuFull : Bool := false
  dropReq : Bool := false
  qAfull : Bool := false
  qAempty : Bool := true
  srcDreq : Bool := true
  deriving DecidableEq, Repr

namespace RxHead

def rtuIn (s : RxHead) (i : RxHeadIn) : RtuIn where
  snkFab := s.vlan.srcFab i.snkFab
  rtuFull := i.rtuFull
  rxbufFull := s.buffer.qDrop
  isPause := false
  tagDone := s.vlan.tagDone
  isTagged := s.vlan.isTaggedO

def bufferIn (s : RxHead) (i : RxHeadIn) : RxBufferIn where
  snkFab := RtuHeader.srcFab (s.rtuIn i)
  srcDreq := i.srcDreq
  dropReq := i.dropReq
  qAfull := i.qAfull
  qAempty := i.qAempty

def step (regs : VlanRegs) (s : RxHead) (i : RxHeadIn) : RxHead where
  vlan := s.vlan.step regs i.snkFab true
  rtu := s.rtu.step (s.rtuIn i)
  buffer := s.buffer.step (s.bufferIn i)

/-- `rtu_rq_o`. -/
def rtuRq (s : RxHead) : RtuRequest where
  dmac := s.rtu.dmac
  smac := s.rtu.smac
  vid := s.vlan.vid
  hasVid := s.vlan.isTaggedO
  prio := s.vlan.tclass
  hasPrio := s.vlan.isTaggedO

inductive RtuEvent where
  | request (rq : RtuRequest)
  | abort
  deriving DecidableEq, Repr

/-- The pulses of a cycle. -/
def pulses (s : RxHead) (i : RxHeadIn) : List RtuEvent :=
  (if s.rtu.abort then [.abort] else []) ++ if s.rtu.rqValid (s.rtuIn i) then [.request s.rtuRq] else []

end RxHead

end WrCores.Endpoint
