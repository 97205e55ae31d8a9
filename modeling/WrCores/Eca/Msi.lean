import Mathlib.Data.BitVec
import WrCores.Eca.Queue

/-!
eca_msi.vhd without the shadow memory, which the configuration bus only reads back. An input says which of the
clocks has an edge; where both have one, each side sees the other as it was. The configuration ports have a
value at every edge. The memory `cross` is an eca_sdp with two clocks: a read of the address that is being
written gives an undefined word, which is an input here. The resets have been applied until the enables in
the synchroniser were zero. Array indices are numbers.
-/

namespace WrCores.Eca

open Clocked

/-- The configuration ports. -/
structure MsiBus (channels : Nat) where
  chan : Fin channels
  enableStb : Bool := false
  enable : Bool := false
  targetStb : Bool := false
  target : BitVec 32 := 0

/-- The ports of `i_clk_i`: the requests of the channels and the answers of the slave. -/
structure MsiPorts (channels : Nat) where
  stb : BitVec channels
  num : Nat → BitVec 8
  code : Nat → BitVec 3
  stall : Bool
  ack : Bool
  err : Bool
  rty : Bool
  undefined : BitVec 32

structure MsiIn (channels : Nat) where
  bus : MsiBus channels
  cEdge : Bool
  iEdge : Option (MsiPorts channels)

structure Msi (channels : Nat) where
  rcEnable : BitVec channels
  rStall : Bool
  rcXor0 : Bool
  rcXor : BitVec 4
  cross : Nat → BitVec 32
  riXor : BitVec 4
  riEnable2 : BitVec channels
  riEnable1 : BitVec channels
  riEnable : BitVec channels
  rSelect : BitVec channels
  rChannel : Nat
  rReady : Bool
  rCyc : Bool
  rStb : Bool
  sAddress : BitVec 32
  rAddress : BitVec 32
  rDelay : BitVec channels
  rMask : BitVec channels
  rNum : BitVec 8
  rCode : BitVec 3

/-- `f_eca_log2`; the loop ends after as many rounds as the number has. -/
def fEcaLog2 (x : Nat) : Nat := go x x
where
  go : Nat → Nat → Nat
    | 0, _ => 0
    | fuel + 1, rest => if 1 < rest then go fuel ((rest + 1) / 2) + 1 else 0

def fEcaLog2Min1 (x : Nat) : Nat := if x ≤ 1 then 1 else fEcaLog2 x

/-- Bit `i` of the result is set by the lines whose number has bit `i` set. -/
def fEca1hotDecode {n : Nat} (x : BitVec n) : Nat :=
  Nat.ofBits fun i : Fin (fEcaLog2Min1 n) => (List.range n).any fun j => j / 2 ^ i.val % 2 == 1 && x.getLsbD j

namespace Msi

variable {n : Nat}

/-- The memory and the registers of `bulk` behind the enables have no reset. -/
structure AfterReset (s : Msi n) : Prop where
  rcEnable : s.rcEnable = 0
  rStall : s.rStall = false
  rcXor0 : s.rcXor0 = false
  rcXor : s.rcXor = 0
  riXor : s.riXor = 0
  riEnable2 : s.riEnable2 = 0
  riEnable1 : s.riEnable1 = 0
  riEnable : s.riEnable = 0
  rSelect : s.rSelect = 0
  rReady : s.rReady = false
  rCyc : s.rCyc = false
  rStb : s.rStb = false

/-- `rc_enable(chan) <= enable`. -/
def setBit (x : BitVec n) (k : Fin n) (value : Bool) : BitVec n :=
  if value then x ||| BitVec.twoPow n k else x &&& ~~~BitVec.twoPow n k

def sWen (s : Msi n) (bus : MsiBus n) : Bool := !s.rcEnable.getLsbD bus.chan && bus.targetStb

def disables (bus : MsiBus n) : Bool := bus.enableStb && !bus.enable

/-- The process `input` and the write port of `cross`. -/
def cEdge (s : Msi n) (bus : MsiBus n) : Msi n :=
  { s with
    rcEnable := if bus.enableStb then setBit s.rcEnable bus.chan bus.enable else s.rcEnable
    rStall :=
      if s.rcXor.getLsbD 1 ^^ s.rcXor.getLsbD 0 then false
      else if disables bus then true
      else s.rStall
    rcXor0 := if disables bus then !s.rcXor0 else s.rcXor0
    rcXor := shiftDown (s.riXor.getLsbD 0) s.rcXor
    cross := if s.sWen bus then Function.update s.cross bus.chan bus.target else s.cross }

def sAck (i : MsiPorts n) : Bool := i.ack || i.err || i.rty

/-- `i_ack_o`. -/
def iAck (s : Msi n) (i : MsiPorts n) : BitVec n := if sAck i then s.rMask else 0

def sPending (s : Msi n) (i : MsiPorts n) : BitVec n := s.riEnable &&& i.stb

def sChannel (s : Msi n) : Nat := fEca1hotDecode s.rSelect

/-- The processes `delay`, `main` and `bulk`, and the read port of `cross`. -/
def iEdge (s : Msi n) (bus : MsiBus n) (i : MsiPorts n) : Msi n :=
  { s with
    riXor := shiftDown s.rcXor0 s.riXor
    riEnable2 := s.rcEnable
    riEnable1 := s.riEnable2
    riEnable := s.riEnable1
    rSelect := if s.rCyc then 0 else s.sPending i &&& (~~~s.sPending i + 1)
    rChannel := s.sChannel
    rReady := !s.rCyc && decide (s.rSelect ≠ 0)
    rCyc := if s.rCyc then !sAck i else s.rReady
    rStb := if s.rStb then i.stall else if s.rCyc then s.rStb else s.rReady
    sAddress := if s.sWen bus && decide (s.sChannel = bus.chan) then i.undefined else s.cross s.sChannel
    rAddress := if s.rCyc then s.rAddress else s.sAddress
    rDelay := s.rSelect
    rMask := if s.rCyc then s.rMask else s.rDelay
    rNum := if s.rCyc then s.rNum else i.num s.rChannel
    rCode := if s.rCyc then s.rCode else i.code s.rChannel }

def step (s : Msi n) (e : MsiIn n) : Msi n :=
  let c := if e.cEdge then s.cEdge e.bus else s
  let i := (e.iEdge.map (s.iEdge e.bus)).getD s
  { i with
    rcEnable := c.rcEnable
    rStall := c.rStall
    rcXor0 := c.rcXor0
    rcXor := c.rcXor
    cross := c.cross }

/-- `i_master_o.dat`. -/
def dat (num : BitVec 8) (code : BitVec 3) : BitVec 32 := code.setWidth 32 <<< 16 ||| num.setWidth 32

/-- A write that the slave takes, and an acknowledge to the channels. -/
inductive Event (n : Nat) where
  | write (adr dat : BitVec 32)
  | ack (mask : BitVec n)
  deriving DecidableEq, Repr

def writes (s : Msi n) (i : MsiPorts n) : Bool := s.rCyc && s.rStb && !i.stall

/-- What the ports show at an edge of `i_clk_i`. -/
def seen (s : Msi n) (e : MsiIn n) : List (Event n) :=
  match e.iEdge with
  | none => []
  | some i =>
      (if s.writes i then [.write s.rAddress (dat s.rNum s.rCode)] else []) ++
        (if sAck i then [.ack (s.iAck i)] else [])

end Msi

end WrCores.Eca
