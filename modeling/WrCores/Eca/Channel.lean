import WrCores.Clocked.Run
import WrCores.Eca.Free

/-!
eca_channel.vhd: what becomes of the slots of the actions that eca_tag_channel puts out. A slot is freed one cycle later,
unless it is of the first error of its kind: then it is kept in a table beside the count of those errors, for the bus to
look at. A request of the bus reads the entry of one kind, and with field 11 takes it out of the table and frees
its slot. The bus has its own clock; requests and answers cross as toggles. What eca_tag_channel shows is an input, and
so is what the fields other than 8, 9 and 11 read. The counters of valid and of overflowing actions and the
interrupts are left out.
-/

namespace WrCores.Eca.Channel

open Clocked

-- `c_num_bits`, `g_log_counter` and `g_log_size`.
variable {v c g : Nat}

/-- `channel_o` and `index_o` of eca_tag_channel. -/
structure Output (v g : Nat) where
  valid : Bool
  delayed : Bool
  conflict : Bool
  late : Bool
  early : Bool
  num : BitVec v
  index : BitVec g
  deriving DecidableEq, Repr

/-- An edge of `clk_i`; `accept` is the slot of an action that eca_tag_channel takes in this cycle. -/
structure In (v g : Nat) where
  channel : Output v g
  stall : Bool
  time : BitVec 64
  reqVal : Bool
  reqDat : BitVec 32
  accept : Option (BitVec g)
  deriving DecidableEq, Repr

/-- An edge of `req_clk_i`. -/
structure ReqIn (v : Nat) where
  stb : Bool
  num : BitVec v
  type : BitVec 2
  field : BitVec 4
  deriving DecidableEq, Repr

/-- An edge of one clock, or of both at once. -/
abbrev Edge (v g : Nat) := Option (In v g) × Option (ReqIn v)

/-- The registers of `clk_i`. -/
structure Main (v c g : Nat) where
  rWipe : BitVec (v + 3)
  saved : Sdp (v + 2) (64 + c + g)
  rRidx : BitVec (v + 2)
  rIndex : BitVec g
  rFreeStb : Bool
  rFreeIdx : BitVec g
  rBusy : Bool
  rFinal : Bool
  rHold : Bool
  rTime : BitVec 64
  rReqXor2 : Bool
  rReqXor3 : Bool
  rReqXor4 : Bool
  rReqXor5 : Bool
  rReqRok : Bool
  rReqAok : Bool
  rReqSok : Bool
  rReqDok : Bool
  rReqAck : Bool
  rcReqNum : BitVec v
  rcReqType : BitVec 2
  rcReqField : BitVec 4
  rReqIdx : BitVec g
  rReqCnt : BitVec c
  rReqTime : BitVec 64
  rcReqDat : BitVec 32

/-- The registers of `req_clk_i`. -/
structure Bus (v : Nat) where
  rReqOld : Bool
  rReqXor1 : Bool
  rsReqNum : BitVec v
  rsReqType : BitVec 2
  rsReqField : BitVec 4
  rReqXor6 : Bool
  rReqXor7 : Bool
  rReqXor8 : Bool
  rReqOut : Bool
  rsReqDat : BitVec 32

structure State (v c g : Nat) where
  main : Main v c g
  bus : Bus v

structure AfterReset (s : State v c g) : Prop where
  wipe : s.main.rWipe = 0
  freeStb : s.main.rFreeStb = false
  busy : s.main.rBusy = false
  final : s.main.rFinal = false
  xors : s.main.rReqXor2 = false ∧ s.main.rReqXor3 = false ∧ s.main.rReqXor4 = false ∧ s.main.rReqXor5 = false
  oks : s.main.rReqRok = true ∧ s.main.rReqAok = true ∧ s.main.rReqSok = true ∧ s.main.rReqDok = true ∧
    s.main.rReqAck = true
  old : s.bus.rReqOld = false
  busXors : s.bus.rReqXor1 = false ∧ s.bus.rReqXor6 = false ∧ s.bus.rReqXor7 = false ∧ s.bus.rReqXor8 = false
  out : s.bus.rReqOut = false

/-- `f_increment`: it stays at all ones. -/
def fIncrement (x : BitVec c) : BitVec c := if fEcaAnd x then x else x + 1

namespace Output

def sError (o : Output v g) : Bool := o.late || o.early || o.conflict || o.delayed

/-- 0 late, 1 early, 2 conflict, 3 delayed. -/
def sCode (o : Output v g) : BitVec 2 := BitVec.ofBool (o.conflict || o.delayed) ++ BitVec.ofBool
    (o.early || o.delayed)

end Output

def In.sFinal (i : In v g) : Bool := if i.channel.valid then !i.stall else i.channel.sError

def In.sBusy (i : In v g) : Bool := i.channel.sError && i.sFinal

/-- The entry of the error that is shown. -/
def In.entry (i : In v g) : BitVec (v + 2) := i.channel.num ++ i.channel.sCode

namespace Main

variable (m : Main v c g)

def sSafe : Bool := m.rWipe.msb

def sDataO : BitVec (64 + c + g) := m.saved.rData

def sTimeO : BitVec 64 := m.sDataO.extractLsb' (c + g) 64

def sCountO : BitVec c := m.sDataO.extractLsb' g c

def sIndexO : BitVec g := m.sDataO.extractLsb' 0 g

def sZero : Bool := !fEcaOr m.sCountO

def sSteal : Bool := m.rBusy && m.sZero

def sErrorField : Bool := fEcaEq m.rcReqField 11

def sReqIdx : Bool := m.rReqRok && !m.rReqAok && !m.rBusy

def sAtomFree : Bool := m.sReqIdx && m.sErrorField

/-- The data of field 11 and of the saved time are always there. -/
def sReqVal (i : In v g) : Bool :=
  if m.rcReqField = 8 ∨ m.rcReqField = 9 ∨ m.rcReqField = 11 then true else i.reqVal

def sReqDat (i : In v g) : BitVec 32 :=
  if m.rcReqField = 8 then m.rReqTime.extractLsb' 32 32
  else if m.rcReqField = 9 then m.rReqTime.extractLsb' 0 32
  else if m.rcReqField = 11 then m.rReqCnt.setWidth 32
  else i.reqDat

def sReqDok (i : In v g) : Bool := m.sReqVal i && m.rReqSok && !m.rReqDok

def sReqAck : Bool := m.rReqDok && !m.rFinal && !m.rReqAck

def sLateFree : Bool := m.sReqAck && m.sErrorField

def sFreeStb : Bool := (m.rFinal && !m.sSteal) || (m.sLateFree && fEcaOr m.rReqCnt)

def sFreeIdx : BitVec g := if m.rFinal then m.rIndex else m.rReqIdx

def sReqRok : Bool := m.rReqXor4 ^^ m.rReqXor3

def sRidx (i : In v g) : BitVec (v + 2) := if i.sBusy then i.entry else m.rcReqNum ++ m.rcReqType

def sWidx : BitVec (v + 2) := if m.sSafe then m.rRidx else m.rWipe.setWidth (v + 2)

def sWen : Bool := m.rBusy || m.sAtomFree || !m.sSafe

def sDataI : BitVec (64 + c + g) :=
  (if m.sZero then m.rTime else m.sTimeO) ++ (if m.rBusy then fIncrement m.sCountO else 0) ++
    (if m.sZero then m.rIndex else m.sIndexO)

def step (bus : Bus v) (i : In v g) : Main v c g where
  rWipe := m.rWipe + (BitVec.ofBool (!m.sSafe)).setWidth (v + 3)
  saved := m.saved.step (m.sRidx i) m.sWen m.sWidx m.sDataI
  rRidx := m.sRidx i
  rIndex := i.channel.index
  rFreeStb := m.sFreeStb
  rFreeIdx := m.sFreeIdx
  rBusy := i.sBusy
  rFinal := i.sFinal
  rHold := i.stall && i.channel.valid
  rTime := if m.rHold then m.rTime else i.time
  rReqXor2 := bus.rReqXor1
  rReqXor3 := m.rReqXor2
  rReqXor4 := m.rReqXor3
  rReqXor5 := m.rReqXor5 ^^ m.sReqAck
  rReqRok := !m.sReqRok
  rReqAok := !m.sReqRok && (m.rReqAok || m.sReqIdx)
  rReqSok := !m.sReqRok && m.rReqAok
  rReqDok := !m.sReqRok && (m.rReqDok || m.sReqDok i)
  rReqAck := !m.sReqRok && (m.rReqAck || m.sReqAck)
  rcReqNum := if m.sReqRok then bus.rsReqNum else m.rcReqNum
  rcReqType := if m.sReqRok then bus.rsReqType else m.rcReqType
  rcReqField := if m.sReqRok then bus.rsReqField else m.rcReqField
  rReqIdx := if m.sReqIdx then m.sIndexO else m.rReqIdx
  rReqCnt := if m.sReqIdx then m.sCountO else m.rReqCnt
  rReqTime := if m.sReqIdx then m.sTimeO else m.rReqTime
  rcReqDat := if m.sReqDok i then m.sReqDat i else m.rcReqDat

end Main

namespace Bus

variable (b : Bus v)

def sReqIn (i : ReqIn v) : Bool := !b.rReqOld && i.stb

def sReqOok : Bool := b.rReqXor8 ^^ b.rReqXor7

def step (m : Main v c g) (i : ReqIn v) : Bus v where
  rReqOld := !b.rReqOut && (b.rReqOld || i.stb)
  rReqXor1 := b.rReqXor1 ^^ b.sReqIn i
  rsReqNum := if b.sReqIn i then i.num else b.rsReqNum
  rsReqType := if b.sReqIn i then i.type else b.rsReqType
  rsReqField := if b.sReqIn i then i.field else b.rsReqField
  rReqXor6 := m.rReqXor5
  rReqXor7 := b.rReqXor6
  rReqXor8 := b.rReqXor7
  rReqOut := b.sReqOok
  rsReqDat := if b.sReqOok then m.rcReqDat else b.rsReqDat

end Bus

def State.step (s : State v c g) (e : Edge v g) : State v c g where
  main := (e.1.map (s.main.step s.bus)).getD s.main
  bus := (e.2.map (s.bus.step s.main)).getD s.bus

end WrCores.Eca.Channel
