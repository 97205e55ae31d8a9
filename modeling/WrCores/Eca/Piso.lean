import Mathlib.Data.BitVec
import Mathlib.Tactic
import WrCores.Eca.Free
import WrCores.Network.Compact

/-!
eca_piso_fifo.vhd: records come in on many ports at once and go out one by one. They lie in one bank for each port, row
by row. In the first cycle the gaps between the records are counted, in the second the records are moved into place
and written. Data that the source leaves undefined is `none`.
-/

namespace WrCores.Eca.Piso

open Clocked

-- `g_log_ports`, `c_log_mem` and `g_width`.
variable {p mem w : Nat}

/-- `f_sub_min1`: a fifo that is smaller than wide has two rows. -/
def fSubMin1 (x y : Nat) : Nat := if y < x then x - y else 1

/-- eca_sdp without the bypass: a cell that is written while it is read shows nothing. -/
structure Bank (mem w : Nat) where
  memory : BitVec mem → Option (BitVec w)
  data : Option (BitVec w)
  bypass : Bool

namespace Bank

def rData (s : Bank mem w) : Option (BitVec w) := if s.bypass then none else s.data

def step (s : Bank mem w) (rAddr : BitVec mem) (wEn : Bool) (wAddr : BitVec mem) (wData : Option (BitVec w)) :
    Bank mem w where
  memory := if wEn then Function.update s.memory wAddr wData else s.memory
  data := s.memory rAddr
  bypass := wEn && fEcaEq rAddr wAddr

end Bank

structure In (w : Nat) where
  push : Nat → Bool
  data : Nat → BitVec w
  pop : Bool

structure State (p mem w : Nat) where
  rHoles : BitVec (p + 1)
  rInc : Bool
  rWaddr : BitVec (mem + p + 1)
  rrWaddr : BitVec (mem + p + 1)
  rRaddr : BitVec (mem + p + 1)
  rValid : Bool
  rFresh : Bool
  rControl : Nat → Nat → Bool
  rData : Nat → BitVec w
  rGeWrite : Nat → Bool
  banks : Nat → Bank mem w

/-- The registers of `main` and the memories have no reset. -/
structure AfterReset (s : State p mem w) : Prop where
  rInc : s.rInc = false
  rWaddr : s.rWaddr = 0
  rrWaddr : s.rrWaddr = 0
  rRaddr : s.rRaddr = 0
  rHoles : s.rHoles = BitVec.ofNat (p + 1) (2 ^ p)
  rValid : s.rValid = false
  rFresh : s.rFresh = true

/-- One column of the network that counts the holes: `s_and` and `s_xor` of a row, from the rows below. -/
def column (ina : Nat → Bool) (inb : Bool) : Nat → Bool × Bool
  | 0 => (ina 0 && inb, ina 0 ^^ inb)
  | r + 1 => (ina (r + 1) && (column ina inb r).1, ina (r + 1) ^^ (column ina inb r).1)

/-- `s_xor` of a column. -/
def sXor (holes : BitVec (p + 1)) (push : Nat → Bool) : Nat → Nat → Bool
  | 0 => fun r => (column holes.getLsbD (!push 0) r).2
  | c + 1 => fun r => (column (sXor holes push c) (!push (c + 1)) r).2

namespace State

def sLast (s : State p mem w) (i : In w) : BitVec (p + 1) :=
  BitVec.ofNat (p + 1) (Nat.ofBits fun r : Fin (p + 1) => sXor s.rHoles i.push (2 ^ p - 1) r)

/-- The highest bit of `s_inc`; the other ones are '1'. -/
def sInc (s : State p mem w) (i : In w) : Bool := decide ((s.sLast i - 1).toNat ≤ 2 ^ p - 1)

def sHoles (s : State p mem w) (i : In w) : BitVec (p + 1) :=
  ~~~(s.sLast i ^^^ BitVec.cons (s.sInc i) (BitVec.allOnes p))

def sSubs (s : State p mem w) (n : Nat) : BitVec (p + 1) := s.rHoles - BitVec.ofNat (p + 1) n

def sLtIdle (s : State p mem w) (n : Nat) : Bool := (s.sSubs (2 ^ p - n)).getLsbD p

/-- The control lines for the next cycle. -/
def nextControl (s : State p mem w) (i : In w) (r c : Nat) : Bool :=
  if r < p then
    if c < 2 ^ p then (s.sSubs (2 ^ p - 1 - c)).getLsbD r else sXor s.rHoles i.push (c - 2 ^ p) r
  else if c < 2 ^ p then true
  else sXor s.rHoles i.push (c - 2 ^ p) p || (s.sSubs (2 ^ p - 1 - (c - 2 ^ p))).getLsbD p

/-- `s_muxes`; the lower half of the first row is undefined. -/
def sMuxes (s : State p mem w) : Nat → Nat → Option (BitVec w) :=
  Network.layers (2 * 2 ^ p) s.rControl fun c => if c < 2 ^ p then none else some (s.rData (c - 2 ^ p))

def sWen (s : State p mem w) (n : Nat) : Bool :=
  if s.rInc then s.rGeWrite n || s.sLtIdle n else s.rGeWrite n && s.sLtIdle n

def sWaddrsHigh (s : State p mem w) (n : Nat) : BitVec mem :=
  s.rWaddr.extractLsb' p mem + (BitVec.ofBool (!s.rGeWrite n)).setWidth mem

def sPop (s : State p mem w) (i : In w) : Bool := s.rValid && i.pop

def sRaddr (s : State p mem w) (i : In w) : BitVec (mem + p + 1) :=
  s.rRaddr + (BitVec.ofBool (s.sPop i)).setWidth (mem + p + 1)

/-- The rows are counted, the place in the row is what the holes leave. -/
def sWaddr (s : State p mem w) : BitVec (mem + p + 1) :=
  ((s.rWaddr.extractLsb' p (mem + 1) + (BitVec.ofBool s.rInc).setWidth (mem + 1)) ++
    (BitVec.ofNat p (2 ^ p - 1) - (s.rHoles.setWidth p - 1))).cast (by omega)

/-- `data_o`. -/
def dataO (s : State p mem w) : Option (BitVec w) := (s.banks (s.rRaddr.setWidth p).toNat).rData

def step (s : State p mem w) (i : In w) : State p mem w where
  rHoles := s.sHoles i
  rInc := s.sInc i
  rWaddr := s.sWaddr
  rrWaddr := s.rWaddr
  rRaddr := s.sRaddr i
  rValid := decide (s.sRaddr i ≠ s.rWaddr)
  rFresh := decide (s.sRaddr i = s.rrWaddr)
  rControl := s.nextControl i
  rData := i.data
  rGeWrite n := !s.sLtIdle n
  banks n := (s.banks n).step ((s.sRaddr i).extractLsb' p mem) (s.sWen n) (s.sWaddrsHigh n) (s.sMuxes (p + 1) n)

end State

/-- The records of one cycle, in the order of their ports. -/
def pushed (p : Nat) (i : In w) : List (BitVec w) := ((List.range (2 ^ p)).filter i.push).map i.data

/-- The record that is taken, with `valid_o` and `pop_i`. -/
def popped (s : State p mem w) (i : In w) : List (Option (BitVec w)) := if s.rValid && i.pop then [s.dataO] else []

end WrCores.Eca.Piso
