import Mathlib.Data.BitVec
import Mathlib.Logic.Function.Basic
import WrCores.Clocked.Run

/-!
eca_ac_wbm.vhd: macros of bus writes, kept as linked records in a RAM whose free addresses stand in
a FIFO, and the pulses of its control slave, eca_ac_wbm_auto.vhd. The RAM has `2 ^ (n + 1)` records.
The FIFO shows its head, and what the RAM shows in a cycle after a write is not specified; both are
from the outside and taken as a list and as an input. The capture of the channel is an input too:
`action` is the tag's index in a cycle with `s_valid`. The multiplexer of the master's data is left
out.
-/

namespace WrCores.Eca

open Clocked

abbrev Addr (n : Nat) := BitVec (n + 1)

/-- `t_rec`, with the fields of `t_wb`. -/
structure Rec (n : Nat) where
  hasNext : Bool
  pnext : Addr n
  drop : Bool
  sel : BitVec 4
  addr : BitVec 32
  data : BitVec 32
  chShow : BitVec 4
  deriving DecidableEq, Repr

inductive WbmState where
  | idle | recAddr | recData | recMeta | txLoad | tx | txWait | clrLoad | clr
  deriving DecidableEq, Repr

/-- A write to a register, with the value the register gets. -/
inductive Command where
  | exec (idx : BitVec 8)
  | record (idx : BitVec 8)
  | clearAll (bit : Bool)
  | clearIdx (idx : BitVec 8)
  | recFifo (word : BitVec 32)
  | enable (bit : Bool)
  deriving DecidableEq, Repr

structure WbmIn (n : Nat) where
  command : Option Command
  action : Option Nat
  mStall : Bool
  mAck : Bool
  junk : Rec n
  deriving DecidableEq, Repr

structure Wbm (n entries : Nat) where
  enable : Bool
  pulse : Option Command
  autoStall : Bool
  stall : Bool
  err : Bool
  rdy : Bool
  busy : Bool
  lastExec : BitVec 8
  lastRec : BitVec 8
  macroQty : BitVec 8
  spaceLeft : BitVec 16
  addrPoolPop : Bool
  addrPoolPush : Bool
  cyc : Bool
  stb : Bool
  opCnt : Addr n
  ackerrCnt : Addr n
  opWrite : Bool
  ramA : Addr n
  ramWe : Bool
  free : Fin entries → Bool
  ptr : Fin entries → Addr n
  wbAddrD : BitVec 32
  d : Rec n
  state : WbmState
  pool : List (Addr n)
  ram : Addr n → Rec n
  q : Rec n

namespace Wbm

variable {n entries : Nat}

def macroIdx (idx : Nat) : Option (Fin entries) := if inside : idx < entries then some ⟨idx, inside⟩ else none

def addrPoolQ (s : Wbm n entries) : Addr n := s.pool.headD 0

def addrPoolEmpty (s : Wbm n entries) : Bool := s.pool.isEmpty

/-- `s_rst_n = '0'`. -/
def clearing (s : Wbm n entries) : Bool := s.pulse == some (.clearAll true)

/-- The write pulses of the control slave. -/
def slave (s : Wbm n entries) (command : Option Command) : Wbm n entries :=
  let idle := { s with pulse := none, autoStall := false }
  if s.autoStall || s.stall then idle
  else
    match command with
    | none => idle
    | some (.enable bit) => { idle with enable := bit }
    | some (.recFifo word) => { idle with pulse := some (.recFifo word) }
    | some other => { idle with pulse := some other, autoStall := true }

def reset (s : Wbm n entries) : Wbm n entries :=
  { s with
    err := false, stall := true, rdy := false, busy := false, lastExec := 0, lastRec := 0, macroQty := 0
    spaceLeft := BitVec.ofNat 16 (2 ^ (n + 1)), addrPoolPop := false, addrPoolPush := false, cyc := false
    stb := false, opWrite := false, ramA := BitVec.allOnes (n + 1), free := fun _ => true, wbAddrD := 0
    ramWe := false }

/-- One address of the pool, and a pointer with it. -/
def prepare (s : Wbm n entries) : Wbm n entries :=
  { s with
    ptr := match macroIdx s.ramA.toNat with
      | some m => Function.update s.ptr m 0
      | none => s.ptr
    addrPoolPush := true
    ramA := s.ramA + 1
    rdy := s.ramA == BitVec.ofNat (n + 1) (2 ^ (n + 1) - 2) }

/-- The assignments of normal operation that the states may override. -/
def settle (s : Wbm n entries) : Wbm n entries :=
  { s with
    stall := false, err := false, addrPoolPop := false, addrPoolPush := false, stb := false, ramWe := false }

def execute (s : Wbm n entries) (idx : Nat) (wb : Bool) : Wbm n entries :=
  match macroIdx idx with
  | some m =>
      if s.free m then { s with err := wb }
      else { s with
        lastExec := BitVec.ofNat 8 idx, ramA := s.ptr m, stall := true, busy := true, state := .txLoad }
  | none => { s with err := wb }

/-- `st_IDLE`: an action, or else a command. -/
def idle (s : Wbm n entries) (action : Option Nat) : Wbm n entries :=
  match action, s.pulse with
  | some idx, _ => if s.enable then s.execute idx false else s
  | none, some (.exec idx) => if s.enable then s.execute idx.toNat true else s
  | none, some (.record idx) =>
      match macroIdx idx.toNat with
      | some m =>
          if !s.addrPoolEmpty && s.free m then
            { s with
              lastRec := idx, macroQty := s.macroQty + 1, ptr := Function.update s.ptr m s.addrPoolQ
              free := Function.update s.free m false, opWrite := false, busy := true, state := .recAddr }
          else { s with err := true }
      | none => { s with err := true }
  | none, some (.clearIdx idx) =>
      match macroIdx idx.toNat with
      | some m =>
          if s.free m then { s with err := true }
          else { s with
            macroQty := s.macroQty - 1, ramA := s.ptr m, addrPoolPush := true
            free := Function.update s.free m true, busy := true, state := .clrLoad }
      | none => { s with err := true }
  | none, _ => s

def recAddr (s : Wbm n entries) : Wbm n entries :=
  match s.pulse with
  | some (.record _) =>
      { s with
        d.hasNext := false, ramWe := s.opWrite, opWrite := false, stall := true, busy := false, state := .idle }
  | some (.recFifo word) =>
      if s.addrPoolEmpty then
        { s with d.hasNext := false, ramWe := s.opWrite, opWrite := false, busy := false, state := .idle }
      else
        { s with
          d := { s.d with hasNext := true, pnext := s.addrPoolQ }
          ramWe := s.opWrite, opWrite := false, wbAddrD := word, state := .recData }
  | _ => s

def recData (s : Wbm n entries) : Wbm n entries :=
  match s.pulse with
  | some (.recFifo word) =>
      { s with
        ramA := s.addrPoolQ, addrPoolPop := true, d := { s.d with addr := s.wbAddrD, data := word }
        state := .recMeta }
  | _ => s

def recMeta (s : Wbm n entries) : Wbm n entries :=
  match s.pulse with
  | some (.recFifo word) =>
      { s with
        d := { s.d with
          chShow := word.extractLsb' 4 4, drop := word.getLsbD 8, sel := word.extractLsb' 0 4 }
        free := match macroIdx s.lastRec.toNat with
          | some m => Function.update s.free m false
          | none => s.free
        spaceLeft := s.spaceLeft - 1, opWrite := true, state := .recAddr }
  | _ => s

/-- `st_TX`; `stb` is the strobe before the edge. -/
def tx (s : Wbm n entries) (stb mStall : Bool) : Wbm n entries :=
  let s := { s with stall := true }
  if s.cyc && stb && !mStall then
    if !s.q.hasNext || s.q.drop then { s with state := .txWait }
    else { s with ramA := s.q.pnext, state := .txLoad }
  else { s with stb := true }

def txWait (s : Wbm n entries) : Wbm n entries :=
  let s := { s with stall := true }
  if s.ackerrCnt == s.opCnt then
    if s.q.hasNext then { s with cyc := false, ramA := s.q.pnext, state := .txLoad }
    else { s with cyc := false, busy := false, state := .idle }
  else s

def clr (s : Wbm n entries) : Wbm n entries :=
  let s := { s with stall := true, spaceLeft := s.spaceLeft + 1 }
  if s.q.hasNext then { s with addrPoolPush := true, ramA := s.q.pnext, state := .clrLoad }
  else { s with busy := false, state := .idle }

/-- The process `main`. -/
def main (s : Wbm n entries) (i : WbmIn n) : Wbm n entries :=
  if s.clearing then s.reset
  else if !s.rdy then s.prepare
  else
    match s.state with
    | .idle => s.settle.idle i.action
    | .recAddr => s.settle.recAddr
    | .recData => s.settle.recData
    | .recMeta => s.settle.recMeta
    | .txLoad => { s.settle with stall := true, cyc := true, stb := true, state := .tx }
    | .tx => s.settle.tx s.stb i.mStall
    | .txWait => s.settle.txWait
    | .clrLoad => { s.settle with stall := true, state := .clr }
    | .clr => s.settle.clr

/-- The FIFO and the RAM as the signals of this cycle change them. -/
def poolNext (s : Wbm n entries) : List (Addr n) :=
  (if s.addrPoolPop then s.pool.tail else s.pool) ++ if s.addrPoolPush then [s.ramA] else []

def ramNext (s : Wbm n entries) : Addr n → Rec n :=
  if s.ramWe then Function.update s.ram s.ramA s.d else s.ram

def masterCnt (s : Wbm n entries) (i : WbmIn n) : Addr n × Addr n :=
  if s.clearing || !s.cyc then (0, 0)
  else (if s.stb && !i.mStall then s.opCnt + 1 else s.opCnt, if i.mAck then s.ackerrCnt + 1 else s.ackerrCnt)

def step (s : Wbm n entries) (i : WbmIn n) : Wbm n entries :=
  let slave := s.slave i.command
  let cnt := s.masterCnt i
  { s.main i with
    enable := slave.enable, pulse := slave.pulse, autoStall := slave.autoStall
    opCnt := cnt.1, ackerrCnt := cnt.2
    pool := if s.clearing then [] else s.poolNext
    ram := s.ramNext
    q := if s.ramWe then i.junk else s.ram s.ramA }

end Wbm

end WrCores.Eca
