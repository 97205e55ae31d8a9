import WrCores.Clocked.Run
import WrCores.Endpoint.Pkg

/-!
ep_rx_buffer.vhd. The FIFO between its two sides is from the outside: it is a list here, and its two
thresholds `almost_full_o` and `almost_empty_o` are inputs. It is not written when it is full, since
frames are cut three entries before that.
-/

namespace WrCores.Endpoint

inductive WriteState where
  | waitFrame | data
  deriving DecidableEq, Repr

structure RxBufferIn where
  snkFab : InternalFabric := {}
  srcDreq : Bool := true
  dropReq : Bool := false
  qAfull : Bool := false
  qAempty : Bool := true
  deriving DecidableEq, Repr

structure RxBuffer where
  state : WriteState := .waitFrame
  qDrop : Bool := false
  dropped : Bool := false
  inPrevAddr : BitVec 2 := 0
  fifo : List (BitVec 18) := []
  qOut : BitVec 18 := 0
  qOutValid : Bool := false
  outCurAddr : BitVec 2 := 2
  deriving DecidableEq, Repr

namespace RxBuffer

def cWrfStatus : BitVec 2 := 2

def cWrfOob : BitVec 2 := 1

/-- What `f_pack_rbuf_contents` writes, if anything. -/
def fPackRbufContents (st : WriteState) (fab : InternalFabric) (prevAddr : BitVec 2) : Option (BitVec 18) :=
  let entry :=
    if fab.sof || fab.error || fab.eof then
      some (0b11#2 ++ BitVec.ofBool fab.sof ++ BitVec.ofBool fab.eof ++ BitVec.ofBool fab.error ++ 0#13)
    else if fab.dvalid then
      some ((if prevAddr != fab.addr then 0b10#2 else 0#1 ++ BitVec.ofBool fab.bytesel) ++ fab.data)
    else none
  if fab.sof || st == .data then entry else none

def fUnpackRbufContents (din : BitVec 18) (curAddr : BitVec 2) (dinValid : Bool) : InternalFabric :=
  if dinValid then
    let tag := din.getLsbD
    { data := din.setWidth 16
      addr := if din.extractLsb' 16 2 == 0b10 then if curAddr == 0 then cWrfOob else 0 else curAddr
      dvalid := !tag 17 || (tag 17 && !tag 16)
      sof := tag 15 && tag 17 && tag 16
      eof := tag 14 && tag 17 && tag 16
      error := tag 13 && tag 17 && tag 16
      bytesel := !tag 17 && tag 16 }
  else { addr := curAddr }

/-- A frame that starts here is stored. -/
def accepts (s : RxBuffer) (i : RxBufferIn) : Bool :=
  s.state == .waitFrame && i.snkFab.sof && !s.qDrop && !i.dropReq

def pFifoWrite (s : RxBuffer) (i : RxBufferIn) : RxBuffer :=
  { s with
    inPrevAddr := if s.state == .waitFrame then cWrfStatus
      else if i.snkFab.dvalid then i.snkFab.addr else s.inPrevAddr
    qDrop := i.qAfull || (s.qDrop && !i.qAempty)
    state := match s.state with
      | .waitFrame => if i.snkFab.sof && !s.qDrop && !i.dropReq then .data else .waitFrame
      | .data => if s.qDrop || i.snkFab.eof || i.snkFab.error then .waitFrame else .data
    dropped := if s.state == .waitFrame && i.snkFab.sof then s.qDrop || i.dropReq else s.dropped }

def pEncodeFifoIn (s : RxBuffer) (i : RxBufferIn) : InternalFabric :=
  let fab := { i.snkFab with sof := i.snkFab.sof && !(s.qDrop || i.dropReq) }
  if s.state == .data && s.qDrop then { fab with dvalid := false, error := true } else fab

def qIn (s : RxBuffer) (i : RxBufferIn) : Option (BitVec 18) :=
  fPackRbufContents s.state (s.pEncodeFifoIn i) s.inPrevAddr

def qRd (s : RxBuffer) (i : RxBufferIn) : Bool := !s.fifo.isEmpty && i.srcDreq

def srcFab (s : RxBuffer) : InternalFabric := fUnpackRbufContents s.qOut s.outCurAddr s.qOutValid

def step (s : RxBuffer) (i : RxBufferIn) : RxBuffer :=
  let out := s.srcFab
  { s.pFifoWrite i with
    fifo := (if s.qRd i then s.fifo.tail else s.fifo) ++ (s.qIn i).toList
    qOut := if s.qRd i then s.fifo.headD 0 else s.qOut
    qOutValid := s.qRd i
    outCurAddr := if out.sof || out.eof || out.error then cWrfStatus else out.addr }

end RxBuffer

end WrCores.Endpoint
